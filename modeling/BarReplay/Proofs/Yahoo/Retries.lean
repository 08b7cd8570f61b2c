import BarReplay.Proofs.Yahoo.Ending

namespace BarReplay

-- A member that is put twice is there as it was put last.
theorem Json.put_put (members : List (String × Json)) (name : String) (first last : Json) :
    put (put members name first) name last = put members name last := by
  unfold put
  by_cases hany : members.any (·.1 == name) = true
  · have hstill : (members.map fun m => if m.1 == name then (name, first) else m).any
        (·.1 == name) = true := by
      obtain ⟨m, hm, hname⟩ := List.any_eq_true.1 hany
      exact List.any_eq_true.2
        ⟨(name, first), List.mem_map.2 ⟨m, hm, if_pos hname⟩, beq_self_eq_true _⟩
    rw [if_pos hany, if_pos hstill, if_pos hany, List.map_map]
    refine List.map_congr_left fun m _ => ?_
    by_cases hname : m.1 = name <;> simp [hname]
  · have hothers : members.map (fun m => if m.1 == name then (name, last) else m) = members := by
      refine (List.map_congr_left fun m hm => if_neg fun hname => hany ?_).trans (List.map_id _)
      exact List.any_eq_true.2 ⟨m, hm, hname⟩
    rw [if_neg hany, if_neg hany, if_pos (by simp), List.map_append, hothers]
    simp

theorem Json.parse_null : parse "null" = .ok null := by
  have hvalue : Parser.value ['n', 'u', 'l', 'l'] = .ok (null, ⟨[], by decide⟩) := by
    rw [Parser.value]
  have hwhole : Parser.whole ['n', 'u', 'l', 'l'] = .ok null := by
    change Parser.value ['n', 'u', 'l', 'l'] >>= _ = _
    rw [hvalue]
    rfl
  have hchars : "null".toList = ['n', 'u', 'l', 'l'] := by decide
  rw [parse, hchars, hwhole]
  rfl

namespace Yahoo

namespace Client

open Session

-- Where the chart of a ticker is.
def chartPage (ticker : String) : String :=
  "https://query1.finance.yahoo.com/v8/finance/chart/" ++ ticker

-- A request for a chart with its answer, and what is done before the next one.
structure Round where
  crumb : String
  answer : Except String Response
  pause : List Event

def Round.events (ticker : String) (parameters : Parameters) (round : Round) : List Event :=
  .get (chartPage ticker) (some (withCrumb parameters (some round.crumb))) round.answer ::
    round.pause

-- Why another request follows, and the crumb that it carries. Rounds are counted from zero.
inductive Leads (client : Client) (number : Nat) (round : Round) : String → Prop
  | renewed {r : Response} {text : String} (hanswer : round.answer = .ok r)
      (hstatus : r.status = 401) (hhands : Handshake round.pause (.ok text)) :
    Leads client number round text
  | waited {r : Response} (hanswer : round.answer = .ok r) (hstatus : busy r.status = true)
      (hpause : round.pause = [.sleep (Int.pow client.backoffBase number)]) :
    Leads client number round round.crumb

-- What an answer comes to that is taken as it is.
inductive Verdict (ticker : String) : Except String Response → Except Error Json → Prop
  | unanswered {reason : String} :
    Verdict ticker (.error reason) (.error (chartFailed ticker reason))
  | unknown {r : Response} (hstatus : r.status = 404) : Verdict ticker (.ok r) (.ok notFound)
  | refused {r : Response} {reason : String} (hstatus : 400 ≤ r.status ∧ r.status < 600)
      (hauthorized : r.status ≠ 401) (hknown : r.status ≠ 404) (hidle : busy r.status = false) :
    Verdict ticker (.ok r) (.error (chartFailed ticker reason))
  | read {r : Response} {chart : Json} (hstatus : r.status < 400 ∨ 600 ≤ r.status)
      (hread : Json.parse r.text = .ok chart) : Verdict ticker (.ok r) (.ok chart)
  | unreadable {r : Response} {e : Json.ParseError} (hstatus : r.status < 400 ∨ 600 ≤ r.status)
      (hread : Json.parse r.text = .error e) :
    Verdict ticker (.ok r) (.error (chartFailed ticker e.message))

-- The failure of a call whose requests are used up.
def usedUp (client : Client) (status : Int) : Error :=
  .source (.noChart ("Yahoo chart request failed after " ++ Decimal.textInt client.retries ++
    " retries (last status=" ++ Decimal.textInt status ++ ")"))

-- What a call comes to with its last request.
inductive Concludes (client : Client) (ticker : String) (number : Nat) (round : Round) :
    Except Error Json → Prop
  | settled {outcome : Except Error Json} (hverdict : Verdict ticker round.answer outcome)
      (hpause : round.pause = []) : Concludes client ticker number round outcome
  | shutOut {r : Response} {e : Error} (hanswer : round.answer = .ok r) (hstatus : r.status = 401)
      (hhands : Handshake round.pause (.error e)) :
    Concludes client ticker number round (.error e)
  | exhausted {r : Response} {text : String} (hanswer : round.answer = .ok r)
      (hleads : Leads client number round text) (hlast : number + 1 = client.retries.toNat) :
    Concludes client ticker number round (.error (usedUp client r.status))

section Pauses

variable {client : Client} {ticker : String} {number : Nat} {round : Round}

theorem Leads.asksChart {text : String} (h : Leads client number round text) :
    ∀ e ∈ round.pause, e.asksChart = false := by
  cases h with
  | renewed hanswer hstatus hhands => exact hhands.asksChart
  | waited hanswer hstatus hpause => exact hpause ▸ List.forall_mem_singleton.2 rfl

theorem Concludes.asksChart {outcome : Except Error Json}
    (h : Concludes client ticker number round outcome) :
    ∀ e ∈ round.pause, e.asksChart = false := by
  cases h with
  | settled hverdict hpause => exact hpause ▸ List.forall_mem_nil _
  | shutOut hanswer hstatus hhands => exact hhands.asksChart
  | exhausted hanswer hleads hlast => exact hleads.asksChart

end Pauses

-- Rounds up to the end of a call, from the one with this number and this crumb on.
structure Course (client : Client) (ticker : String) (number : Nat) (text : String)
    (rounds : List Round) (outcome : Except Error Json) : Prop where
  first : ∃ round ∈ rounds.head?, round.crumb = text
  further : ∀ n round next, rounds[n]? = some round → rounds[n + 1]? = some next →
    Leads client (number + n) round next.crumb
  last : ∀ n round, rounds[n]? = some round → n + 1 = rounds.length →
    Concludes client ticker (number + n) round outcome

section Courses

variable {client : Client} {ticker : String} {number left : Nat} {text : String} {round : Round}
  {rounds : List Round} {outcome : Except Error Json} {parameters : Parameters}

theorem Course.single (h : Concludes client ticker number round outcome) :
    Course client ticker number round.crumb [round] outcome where
  first := ⟨round, rfl, rfl⟩
  further n _ next _ hnext := by cases hnext
  last n last hlast hn := by
    cases n with
    | zero =>
      cases hlast
      exact h
    | succ n => cases hlast

theorem Course.cons (h : Leads client number round text)
    (hrest : Course client ticker (number + 1) text rounds outcome) :
    Course client ticker number round.crumb (round :: rounds) outcome where
  first := ⟨round, rfl, rfl⟩
  further n before next hbefore hnext := by
    cases n with
    | zero =>
      cases hbefore
      obtain ⟨second, hsecond, rfl⟩ := hrest.first
      rw [List.getElem?_cons_succ, ← List.head?_eq_getElem?, hsecond] at hnext
      cases hnext
      exact h
    | succ n =>
      rw [Nat.add_comm n, ← Nat.add_assoc]
      exact hrest.further n before next hbefore hnext
  last n last hlast hn := by
    cases n with
    | zero =>
      obtain ⟨second, hsecond, -⟩ := hrest.first
      rw [List.length_cons, Nat.add_right_cancel_iff, eq_comm, List.length_eq_zero_iff] at hn
      rw [hn] at hsecond
      cases hsecond
    | succ n =>
      rw [Nat.add_comm n, ← Nat.add_assoc]
      exact hrest.last n last hlast (Nat.succ.inj hn)

theorem Course.asksChart (h : Course client ticker number text rounds outcome) :
    ∀ round ∈ rounds, ∀ e ∈ round.pause, e.asksChart = false := by
  intro round hround
  obtain ⟨n, hn, hround⟩ := List.mem_iff_getElem.1 hround
  have hget : rounds[n]? = some round := hround ▸ List.getElem?_eq_getElem hn
  by_cases hlast : n + 1 = rounds.length
  · exact (h.last n round hget hlast).asksChart
  · exact (h.further n round _ hget (List.getElem?_eq_getElem (by omega))).asksChart

-- There is one request for a chart in each round.
theorem countP_asksChart (h : ∀ round ∈ rounds, ∀ e ∈ round.pause, e.asksChart = false) :
    (rounds.flatMap (Round.events ticker parameters)).countP Event.asksChart = rounds.length := by
  induction rounds with
  | nil => rfl
  | cons round rounds ih =>
    obtain ⟨hpause, hrounds⟩ := List.forall_mem_cons.1 h
    have hnone : round.pause.countP Event.asksChart = 0 :=
      List.countP_eq_zero.2 fun e he => Bool.not_eq_true _ ▸ hpause e he
    rw [List.flatMap_cons, List.countP_append, ih hrounds, Round.events,
      List.countP_cons_of_pos rfl, hnone, List.length_cons]
    omega

-- A call that ends with a request, and so within the requests that are left.
theorem Concludes.exists_course (h : Concludes client ticker number round outcome) :
    ∃ rounds, Course client ticker number round.crumb rounds outcome ∧ rounds.length ≤ left + 1 ∧
      round.events ticker parameters = rounds.flatMap (Round.events ticker parameters) :=
  ⟨[round], .single h, Nat.succ_pos left, by simp⟩

-- A call that goes on after a request comes to its end in the rounds behind it, or there if no
-- requests are left.
theorem Tries.extend {url : String} {carried parameters : Parameters} {crumb crumb' : Crumb}
    {events : List Event} {r : Response}
    (h : Tries client ticker url carried (some r.status) (number + 1) left crumb events outcome
      crumb')
    (hanswer : round.answer = .ok r) (hleads : Leads client number round text)
    (hleft : number + (left + 1) = client.retries.toNat)
    (hrest : left ≠ 0 → ∃ rounds, Course client ticker (number + 1) text rounds outcome ∧
      rounds.length ≤ left ∧ events = rounds.flatMap (Round.events ticker parameters)) :
    ∃ rounds, Course client ticker number round.crumb rounds outcome ∧ rounds.length ≤ left + 1 ∧
      round.events ticker parameters ++ events =
        rounds.flatMap (Round.events ticker parameters) := by
  by_cases hnone : left = 0
  · subst hnone
    cases h with
    | exhausted =>
      rw [List.append_nil]
      exact (Concludes.exhausted hanswer hleads hleft).exists_course
  · obtain ⟨rounds, hcourse, hlength, rfl⟩ := hrest hnone
    exact ⟨round :: rounds, .cons hleads hcourse, Nat.succ_le_succ hlength, by simp⟩

end Courses

theorem verdict_read {client : Client} {ticker : String} {r : Response}
    (hreader : client.reader.Documented) (hauthorized : r.status ≠ 401)
    (hknown : r.status ≠ 404) (hidle : busy r.status = false) :
    Verdict ticker (.ok r)
      ((client.read (chartPage ticker) r).mapError (refused ticker)) := by
  by_cases hrefused : 400 ≤ r.status ∧ r.status < 600
  · obtain ⟨reason, hreason⟩ := hreader.refuses (chartPage ticker) r hrefused.1 hrefused.2
    rw [read, hreason]
    exact .refused hrefused hauthorized hknown hidle
  · have htaken : r.status < 400 ∨ 600 ≤ r.status := by omega
    rw [read, hreader.takes (chartPage ticker) r htaken]
    change Verdict ticker (.ok r) ((client.reader.json r).mapError (refused ticker))
    cases hparse : Json.parse r.text with
    | ok chart =>
      rw [hreader.reads r chart hparse]
      exact .read htaken hparse
    | error e =>
      rw [hreader.explains r e hparse]
      exact .unreadable htaken hparse

-- The requests of a call, from any of them on.
theorem Tries.course {client : Client} {ticker : String} {carried parameters : Parameters}
    {last : Option Int} {number left : Nat} {crumb crumb' : Crumb} {events : List Event}
    {outcome : Except Error Json} {text : String} (hreader : client.reader.Documented)
    (h : Tries client ticker (chartPage ticker) carried last number left crumb events outcome
      crumb')
    (hcarried : carried = withCrumb parameters (some text))
    (hleft : number + left = client.retries.toNat) (hsome : left ≠ 0) :
    ∃ rounds, Course client ticker number text rounds outcome ∧ rounds.length ≤ left ∧
      events = rounds.flatMap (Round.events ticker parameters) := by
  induction h generalizing text with
  | exhausted => exact absurd rfl hsome
  | @unanswered _ _ number _ _ reason =>
    have hlast : Concludes client ticker number ⟨text, .error reason, []⟩ _ :=
      .settled .unanswered rfl
    exact hcarried ▸ hlast.exists_course
  | @shutOut _ _ number _ _ r events _ hstatus hhands =>
    have hlast : Concludes client ticker number ⟨text, .ok r, events⟩ _ :=
      .shutOut rfl hstatus hhands
    exact hcarried ▸ hlast.exists_course
  | @letIn carried _ number _ _ _ r events _ text' _ hstatus hhands hrest ih =>
    have hleads : Leads client number ⟨text, .ok r, events⟩ text' := .renewed rfl hstatus hhands
    have hagain : withCrumb carried (some text') = withCrumb parameters (some text') :=
      hcarried ▸ Json.put_put _ _ _ _
    exact hcarried ▸ hrest.extend rfl hleads hleft (ih hagain (by omega))
  | @unknown _ _ number _ _ r hstatus =>
    have hlast : Concludes client ticker number ⟨text, .ok r, []⟩ _ :=
      .settled (.unknown hstatus) rfl
    exact hcarried ▸ hlast.exists_course
  | @waited _ _ number _ _ _ r _ _ hstatus hrest ih =>
    have hleads : Leads client number
        ⟨text, .ok r, [.sleep (Int.pow client.backoffBase number)]⟩ text := .waited rfl hstatus rfl
    exact hcarried ▸ hrest.extend rfl hleads hleft (ih hcarried (by omega))
  | @settled _ _ number _ _ r hauthorized hknown hidle =>
    have hlast : Concludes client ticker number ⟨text, .ok r, []⟩ _ :=
      .settled (verdict_read hreader hauthorized hknown hidle) rfl
    exact hcarried ▸ hlast.exists_course

-- A call of a client that holds a crumb makes some requests and no more than it may. Each carries
-- the crumb that was obtained last, and another one follows only when the answer was a refusal and
-- a handshake has renewed the crumb, or when the server was busy and the client has waited for as
-- long as the number of requests before it says. Any other answer settles the matter, so does a
-- handshake that fails, and if neither comes the last status is named.
theorem requests_until_settled (client : Client) (script : Script) (ticker : String)
    (parameters : Parameters) (log : List Event) {text : String} (htext : text ≠ "")
    (hretries : 1 ≤ client.retries) (hreader : client.reader.Documented) :
    ∃ (rounds : List Round) (outcome : Except Error Json) (crumb : Crumb),
      on (client.chart (scripted script) ticker parameters) (some text) log =
        (outcome, crumb, log ++ rounds.flatMap (Round.events ticker parameters)) ∧
      (rounds.flatMap (Round.events ticker parameters)).countP Event.asksChart = rounds.length ∧
      (rounds.length : Int) ≤ client.retries ∧
      (∃ round ∈ rounds.head?, round.crumb = text) ∧
      (∀ n round next, rounds[n]? = some round → rounds[n + 1]? = some next →
        Leads client n round next.crumb) ∧
      ∀ n round, rounds[n]? = some round → n + 1 = rounds.length →
        Concludes client ticker n round outcome := by
  obtain ⟨events, outcome, crumb, hcall, hrun⟩ :=
    on_chart script (some text) log client ticker parameters
  have hleft : 0 + client.retries.toNat = client.retries.toNat := Nat.zero_add _
  have hsome : client.retries.toNat ≠ 0 := by omega
  cases hcall with
  | shutOut hcrumb hhands => exact absurd hcrumb htext
  | letIn hcrumb hhands hrest => exact absurd hcrumb htext
  | known hcrumb hrest =>
    obtain ⟨rounds, hcourse, hlength, rfl⟩ := hrest.course hreader rfl hleft hsome
    refine ⟨rounds, outcome, crumb, hrun, countP_asksChart hcourse.asksChart, by omega,
      hcourse.first, ?_, ?_⟩
    · intro n round next hround hnext
      simpa using hcourse.further n round next hround hnext
    · intro n round hround hlast
      simpa using hcourse.last n round hround hlast

-- A refusal with the handshake that it leads to, a server that is busy, and a ticker that is not
-- known.
def renewing : Script :=
  inTurn [.ok ⟨401, "", ""⟩, .ok ⟨200, "", ""⟩, .ok ⟨200, "new", ""⟩, .ok ⟨429, "", ""⟩,
    .ok ⟨404, "", ""⟩]

theorem requests_until_settled_renewing :
    "old" ≠ "" ∧ 1 ≤ (standard Machine.reader).retries ∧ Machine.reader.Documented ∧
      ∃ (rounds : List Round) (crumb : Crumb),
      on ((standard Machine.reader).chart (scripted renewing) "BHP.AX" []) (some "old") [] =
        (.ok notFound, crumb, rounds.flatMap (Round.events "BHP.AX" [])) ∧
      rounds.length = 3 ∧ ∃ round ∈ rounds.head?, round.crumb = "old" := by
  have htext : "old" ≠ "" := by decide
  have hretries : 1 ≤ (standard Machine.reader).retries := by decide
  obtain ⟨rounds, outcome, crumb, hrun, hcount, -, hfirst, -, -⟩ :=
    requests_until_settled (standard Machine.reader) renewing "BHP.AX" [] [] htext hretries
      machine_documented
  rw [List.nil_append] at hrun
  have houtcome : (on ((standard Machine.reader).chart (scripted renewing) "BHP.AX" [])
      (some "old") []).1 = .ok notFound := rfl
  have hthree : (on ((standard Machine.reader).chart (scripted renewing) "BHP.AX" [])
      (some "old") []).2.2.countP Event.asksChart = 3 := rfl
  rw [hrun] at houtcome hthree
  exact ⟨htext, hretries, machine_documented, rounds, crumb, houtcome ▸ hrun, hcount ▸ hthree,
    hfirst⟩

-- A status that is none of a server, and that is no refusal, is taken for a chart.
theorem strange_status_is_read :
    ¬ (600 : Int) < 400 ∧ (600 : Int) ∉ [401, 404, 429, 500, 502, 503, 504] ∧
      (on ((standard Machine.reader).chart (scripted (inTurn [.ok ⟨600, "null", ""⟩])) "BHP.AX" [])
        (some "crumb") []).1 = .ok .null := by
  refine ⟨by decide, by decide, ?_⟩
  have hread : (standard Machine.reader).read (chartPage "BHP.AX") ⟨600, "null", ""⟩ =
      .ok .null := by
    rw [read, standard, machine_documented.takes _ _ (.inr (by decide))]
    exact machine_documented.reads _ _ Json.parse_null
  have hanswer : ∀ parameters, inTurn [.ok ⟨600, "null", ""⟩] [] (chartPage "BHP.AX") parameters =
      .ok ⟨600, "null", ""⟩ := fun _ => rfl
  have hretries : (standard Machine.reader).retries.toNat = 2 + 1 := rfl
  rw [chart, on_get_bind, if_neg (by decide), hretries]
  change (on (get >>= fun crumb => attempt (standard Machine.reader) _ _ (chartPage "BHP.AX")
    (withCrumb [] crumb) none 0 (2 + 1)) _ _).1 = _
  rw [on_get_bind, attempt, on_request_bind, hanswer]
  dsimp only
  rw [if_neg (by decide), if_neg (by decide), if_neg (by decide), hread]
  rfl

end Client

end Yahoo

end BarReplay
