import BarReplay.Proofs.Yahoo.Session

namespace BarReplay.Yahoo

namespace Client

open Session

variable {β γ : Type}

section Runs

variable {crumb : Crumb} {log : List Event} {script : Script}

@[simp] theorem on_get_bind (f : Crumb → Action (StateM (List Event)) β) :
    on (get >>= f) crumb log = on (f crumb) crumb log := by
  rw [on_bind]
  rfl

@[simp] theorem on_clearCookies_bind (f : Unit → Action (StateM (List Event)) β) :
    on (ExceptT.lift (StateT.lift (scripted script).clearCookies) >>= f) crumb log =
      on (f ()) crumb (log ++ [.clearCookies]) := by
  rw [on_bind]
  rfl

@[simp] theorem on_sleep_bind (seconds : Int) (f : Unit → Action (StateM (List Event)) β) :
    on (ExceptT.lift (StateT.lift ((scripted script).sleep seconds)) >>= f) crumb log =
      on (f ()) crumb (log ++ [.sleep seconds]) := by
  rw [on_bind]
  rfl

@[simp] theorem on_request_bind (url : String) (parameters : Option Parameters)
    (f : Except String Response → Action (StateM (List Event)) β) :
    on (request (scripted script) url parameters >>= f) crumb log =
      on (f (script log url parameters)) crumb
        (log ++ [.get url parameters (script log url parameters)]) := by
  rw [on_bind]
  rfl

theorem on_ask_bind (url : String) (f : Response → Action (StateM (List Event)) β) :
    on (ask (scripted script) url >>= f) crumb log =
      match script log url none with
      | .ok r => on (f r) crumb (log ++ [.get url none (.ok r)])
      | .error reason =>
        (.error (.breakdown (.connection reason)), crumb,
          log ++ [.get url none (.error reason)]) := by
  rw [ask, bind_assoc, on_request_bind]
  cases script log url none with
  | ok r => rw [pure_bind]
  | error reason =>
    rw [on_bind]
    rfl

end Runs

-- The pages that are asked for a crumb, one after the other up to the first that has one.
inductive Hunt : List String → List Event → Except Error String → Prop
  | nowhere : Hunt [] [] (.error (.source (.noChart "Could not obtain Yahoo crumb for chart API.")))
  | unanswered {page : String} {pages : List String} {reason : String} :
    Hunt (page :: pages) [.get page none (.error reason)] (.error (.breakdown (.connection reason)))
  | found {page : String} {pages : List String} {r : Response} {text : String}
      (h : crumb? r = some text) : Hunt (page :: pages) [.get page none (.ok r)] (.ok text)
  | next {page : String} {pages : List String} {r : Response} {events : List Event}
      {outcome : Except Error String} (h : crumb? r = none) (hrest : Hunt pages events outcome) :
    Hunt (page :: pages) (.get page none (.ok r) :: events) outcome

-- Cookies and a crumb that belongs to them.
inductive Handshake : List Event → Except Error String → Prop
  | unanswered {reason : String} :
    Handshake [.clearCookies, .get "https://fc.yahoo.com" none (.error reason)]
      (.error (.breakdown (.connection reason)))
  | answered {r : Response} {events : List Event} {outcome : Except Error String}
      (h : Hunt crumbPages events outcome) :
    Handshake (.clearCookies :: .get "https://fc.yahoo.com" none (.ok r) :: events) outcome

-- The crumb after a handshake. One that failed leaves the old one.
def renew (crumb : Crumb) : Except Error String → Crumb
  | .ok text => some text
  | .error _ => crumb

-- Requests for a chart until one of them settles what becomes of it. The indices are those of
-- `attempt`: the parameters, the last status, the number of requests made and of those left, the
-- crumb; then what happens, what it comes to and the crumb that is left.
inductive Tries (client : Client) (ticker url : String) :
    Parameters → Option Int → Nat → Nat → Crumb → List Event → Except Error Json → Crumb → Prop
  | exhausted {parameters : Parameters} {last : Option Int} {number : Nat} {crumb : Crumb} :
    Tries client ticker url parameters last number 0 crumb []
      (.error (.source (.noChart ("Yahoo chart request failed after " ++
        Decimal.textInt client.retries ++ " retries (last status=" ++
        (last.map Decimal.textInt).getD "None" ++ ")")))) crumb
  | unanswered {parameters : Parameters} {last : Option Int} {number left : Nat} {crumb : Crumb}
      {reason : String} :
    Tries client ticker url parameters last number (left + 1) crumb
      [.get url (some parameters) (.error reason)] (.error (chartFailed ticker reason)) crumb
  | shutOut {parameters : Parameters} {last : Option Int} {number left : Nat} {crumb : Crumb}
      {r : Response} {events : List Event} {e : Error} (hstatus : r.status = 401)
      (hhands : Handshake events (.error e)) :
    Tries client ticker url parameters last number (left + 1) crumb
      (.get url (some parameters) (.ok r) :: events) (.error e) crumb
  | letIn {parameters : Parameters} {last : Option Int} {number left : Nat} {crumb crumb' : Crumb}
      {r : Response} {events rest : List Event} {text : String} {outcome : Except Error Json}
      (hstatus : r.status = 401) (hhands : Handshake events (.ok text))
      (hrest : Tries client ticker url (withCrumb parameters (some text)) (some r.status)
        (number + 1) left (some text) rest outcome crumb') :
    Tries client ticker url parameters last number (left + 1) crumb
      (.get url (some parameters) (.ok r) :: events ++ rest) outcome crumb'
  | unknown {parameters : Parameters} {last : Option Int} {number left : Nat} {crumb : Crumb}
      {r : Response} (hstatus : r.status = 404) :
    Tries client ticker url parameters last number (left + 1) crumb
      [.get url (some parameters) (.ok r)] (.ok notFound) crumb
  | waited {parameters : Parameters} {last : Option Int} {number left : Nat} {crumb crumb' : Crumb}
      {r : Response} {rest : List Event} {outcome : Except Error Json}
      (hstatus : busy r.status = true)
      (hrest : Tries client ticker url parameters (some r.status) (number + 1) left crumb rest
        outcome crumb') :
    Tries client ticker url parameters last number (left + 1) crumb
      (.get url (some parameters) (.ok r) :: .sleep (Int.pow client.backoffBase number) :: rest)
      outcome crumb'
  | settled {parameters : Parameters} {last : Option Int} {number left : Nat} {crumb : Crumb}
      {r : Response} (hauthorized : r.status ≠ 401) (hknown : r.status ≠ 404)
      (hidle : busy r.status = false) :
    Tries client ticker url parameters last number (left + 1) crumb
      [.get url (some parameters) (.ok r)] ((client.read url r).mapError (refused ticker))
      crumb

-- A chart that is asked for: without a crumb a handshake comes first.
inductive Call (client : Client) (ticker : String) (parameters : Parameters) :
    Crumb → List Event → Except Error Json → Crumb → Prop
  | shutOut {crumb : Crumb} {events : List Event} {e : Error} (hcrumb : crumb.getD "" = "")
      (hhands : Handshake events (.error e)) :
    Call client ticker parameters crumb events (.error e) crumb
  | letIn {crumb crumb' : Crumb} {events rest : List Event} {text : String}
      {outcome : Except Error Json} (hcrumb : crumb.getD "" = "")
      (hhands : Handshake events (.ok text))
      (hrest : Tries client ticker ("https://query1.finance.yahoo.com/v8/finance/chart/" ++ ticker)
        (withCrumb parameters (some text)) none 0 client.retries.toNat (some text) rest outcome
        crumb') :
    Call client ticker parameters crumb (events ++ rest) outcome crumb'
  | known {crumb crumb' : Crumb} {events : List Event} {outcome : Except Error Json}
      (hcrumb : crumb.getD "" ≠ "")
      (hrest : Tries client ticker ("https://query1.finance.yahoo.com/v8/finance/chart/" ++ ticker)
        (withCrumb parameters crumb) none 0 client.retries.toNat crumb events outcome crumb') :
    Call client ticker parameters crumb events outcome crumb'

-- No page of a handshake is asked for a chart.
theorem Hunt.asksChart {pages : List String} {events : List Event} {outcome : Except Error String}
    (h : Hunt pages events outcome) : ∀ e ∈ events, e.asksChart = false := by
  induction h with
  | nowhere => exact List.forall_mem_nil _
  | unanswered => exact List.forall_mem_singleton.2 rfl
  | found h => exact List.forall_mem_singleton.2 rfl
  | next h hrest ih => exact List.forall_mem_cons.2 ⟨rfl, ih⟩

theorem Handshake.asksChart {events : List Event} {outcome : Except Error String}
    (h : Handshake events outcome) : ∀ e ∈ events, e.asksChart = false := by
  cases h with
  | unanswered => exact List.forall_mem_cons.2 ⟨rfl, List.forall_mem_singleton.2 rfl⟩
  | answered h => exact List.forall_mem_cons.2 ⟨rfl, List.forall_mem_cons.2 ⟨rfl, h.asksChart⟩⟩

section Client

variable (script : Script) (crumb : Crumb) (log : List Event)

theorem on_findCrumb (pages : List String) : ∃ events outcome, Hunt pages events outcome ∧
    on (findCrumb (scripted script) pages) crumb log =
      (outcome.map fun _ => (), renew crumb outcome, log ++ events) := by
  induction pages generalizing log with
  | nil => exact ⟨[], _, .nowhere, by simp [findCrumb, renew, Except.map]⟩
  | cons page pages ih =>
    rw [findCrumb, on_ask_bind]
    cases script log page none with
    | error reason => exact ⟨_, _, .unanswered, rfl⟩
    | ok r =>
      dsimp only
      cases hcrumb : crumb? r with
      | some text => exact ⟨_, _, .found hcrumb, rfl⟩
      | none =>
        obtain ⟨events, outcome, hhunt, hrun⟩ := ih (log ++ [.get page none (.ok r)])
        exact ⟨_, outcome, .next hcrumb hhunt, by rw [hrun, List.append_assoc]; rfl⟩

theorem on_refresh : ∃ events outcome, Handshake events outcome ∧
    on (refresh (scripted script)) crumb log =
      (outcome.map fun _ => (), renew crumb outcome, log ++ events) := by
  rw [refresh, on_clearCookies_bind, on_ask_bind]
  cases script (log ++ [.clearCookies]) "https://fc.yahoo.com" none with
  | error reason => exact ⟨_, _, @Handshake.unanswered reason, by simp [renew, Except.map]⟩
  | ok r =>
    obtain ⟨events, outcome, hhunt, hrun⟩ := on_findCrumb script crumb
      (log ++ [.clearCookies] ++ [.get "https://fc.yahoo.com" none (.ok r)]) crumbPages
    exact ⟨_, outcome, @Handshake.answered r _ _ hhunt, by dsimp only; rw [hrun]; simp⟩

theorem on_attempt (client : Client) (ticker url : String) (parameters : Parameters)
    (last : Option Int) (number left : Nat) : ∃ events outcome crumb',
    Tries client ticker url parameters last number left crumb events outcome crumb' ∧
    on (attempt client (scripted script) ticker url parameters last number left) crumb log =
      (outcome, crumb', log ++ events) := by
  induction left generalizing parameters last number crumb log with
  | zero => exact ⟨[], _, crumb, .exhausted, by simp [attempt]⟩
  | succ left ih =>
    rw [attempt, on_request_bind]
    cases script log url (some parameters) with
    | error reason => exact ⟨_, _, _, .unanswered, rfl⟩
    | ok r =>
      dsimp only
      by_cases hauthorized : r.status = 401
      · rw [if_pos hauthorized, on_bind]
        obtain ⟨events, outcome, hhands, hrun⟩ :=
          on_refresh script crumb (log ++ [.get url (some parameters) (.ok r)])
        rw [hrun]
        cases outcome with
        | error e =>
          exact ⟨_, _, _, .shutOut hauthorized hhands, by simp [Except.map, renew]⟩
        | ok text =>
          obtain ⟨rest, outcome, crumb', htries, hrun⟩ := ih (some text)
            (log ++ [.get url (some parameters) (.ok r)] ++ events)
            (withCrumb parameters (some text)) (some r.status) (number + 1)
          refine ⟨_, outcome, crumb', .letIn hauthorized hhands htries, ?_⟩
          simp only [Except.map, renew, on_get_bind, hrun]
          simp
      rw [if_neg hauthorized]
      by_cases hknown : r.status = 404
      · rw [if_pos hknown]
        exact ⟨_, _, _, .unknown hknown, rfl⟩
      rw [if_neg hknown]
      by_cases hidle : busy r.status = true
      · obtain ⟨rest, outcome, crumb', htries, hrun⟩ := ih crumb
          (log ++ [.get url (some parameters) (.ok r)] ++
            [.sleep (Int.pow client.backoffBase number)])
          parameters (some r.status) (number + 1)
        refine ⟨_, outcome, crumb', .waited hidle htries, ?_⟩
        rw [if_pos hidle, on_sleep_bind, hrun]
        simp
      · refine ⟨_, _, _, .settled hauthorized hknown (Bool.not_eq_true _ ▸ hidle), ?_⟩
        rw [if_neg hidle]
        cases client.read url r <;> rfl

theorem on_chart (client : Client) (ticker : String) (parameters : Parameters) :
    ∃ events outcome crumb', Call client ticker parameters crumb events outcome crumb' ∧
    on (client.chart (scripted script) ticker parameters) crumb log =
      (outcome, crumb', log ++ events) := by
  rw [chart, on_get_bind]
  by_cases hcrumb : crumb.getD "" = ""
  · obtain ⟨events, outcome, hhands, hrun⟩ := on_refresh script crumb log
    rw [if_pos (by rw [hcrumb]; rfl), on_bind, hrun]
    cases outcome with
    | error e => exact ⟨_, _, _, .shutOut hcrumb hhands, rfl⟩
    | ok text =>
      obtain ⟨rest, outcome, crumb', htries, hrun⟩ := on_attempt script (some text) (log ++ events)
        client ticker ("https://query1.finance.yahoo.com/v8/finance/chart/" ++ ticker)
        (withCrumb parameters (some text)) none 0 client.retries.toNat
      refine ⟨_, outcome, crumb', .letIn hcrumb hhands htries, ?_⟩
      simp only [Except.map, renew, on_get_bind, hrun, List.append_assoc]
  · obtain ⟨events, outcome, crumb', htries, hrun⟩ := on_attempt script crumb log client ticker
      ("https://query1.finance.yahoo.com/v8/finance/chart/" ++ ticker) (withCrumb parameters crumb)
      none 0 client.retries.toNat
    refine ⟨events, outcome, crumb', .known hcrumb htries, ?_⟩
    rw [if_neg (by simpa using hcrumb)]
    dsimp only
    rw [on_get_bind, hrun]

end Client

end Client

end BarReplay.Yahoo
