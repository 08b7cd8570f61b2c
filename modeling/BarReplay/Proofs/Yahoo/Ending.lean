import BarReplay.Machine
import BarReplay.Proofs.Yahoo.Transport

namespace BarReplay.Yahoo

-- An answer that is taken as it is: the request is not repeated for it.
structure Response.Final (r : Response) : Prop where
  authorized : r.status ≠ 401
  known : r.status ≠ 404
  idle : Client.busy r.status = false

namespace Event

-- The answer to a request for a chart, with a chart in it.
def Delivers (client : Client) (e : Event) (chart : Json) : Prop :=
  ∃ url parameters r, e = .get url (some parameters) (.ok r) ∧
    (r.status = 404 ∧ chart = Client.notFound ∨ r.Final ∧ client.read url r = .ok chart)

-- A page of the handshake that gave no answer.
def Unanswered (e : Event) (reason : String) : Prop :=
  ∃ url, e = .get url none (.error reason)

-- The answer to a request for a chart, from which nothing can be read for a reason that is not to
-- be reckoned with.
def Baffles (client : Client) (e : Event) (reason : String) : Prop :=
  ∃ url parameters r, e = .get url (some parameters) (.ok r) ∧ r.Final ∧
    client.read url r = .error (.unexpected reason)

-- What a call breaks down with that ends with an event.
inductive Breaks (client : Client) (e : Event) : Breakdown → Prop
  | page {reason : String} (h : e.Unanswered reason) : e.Breaks client (.connection reason)
  | reader {reason : String} (h : e.Baffles client reason) : e.Breaks client (.reader reason)

-- What settles nothing about a call.
structure Idle (client : Client) (e : Event) : Prop where
  chart : ∀ chart, ¬ e.Delivers client chart
  cause : ∀ cause, ¬ e.Breaks client cause

theorem Idle.of {client : Client} {e : Event}
    (hchart : ∀ url parameters r, e ≠ .get url (some parameters) (.ok r))
    (hpage : ∀ url reason, e ≠ .get url none (.error reason)) : e.Idle client where
  chart := by
    rintro chart ⟨url, parameters, r, h, -⟩
    exact hchart url parameters r h
  cause := by
    rintro _ (⟨url, h⟩ | ⟨url, parameters, r, h, -⟩)
    · exact hpage url _ h
    · exact hchart url parameters r h

end Event

-- A reader that works as documented fails for a reason that is to be reckoned with.
theorem Reader.Documented.expected {client : Client} {url : String} {r : Response}
    {refusal : Refusal} (h : client.reader.Documented)
    (hread : client.read url r = .error refusal) : ∃ reason, refusal = .expected reason := by
  have hcheck : (∃ reason, client.reader.check url r = .error (.expected reason)) ∨
      client.reader.check url r = .ok () := by
    by_cases hrefused : 400 ≤ r.status ∧ r.status < 600
    · exact .inl (h.refuses url r hrefused.1 hrefused.2)
    · exact .inr (h.takes url r (by omega))
  unfold Client.read at hread
  obtain ⟨reason, hreason⟩ | htaken := hcheck
  · rw [hreason] at hread
    cases hread
    exact ⟨reason, rfl⟩
  · rw [htaken] at hread
    change client.reader.json r = .error refusal at hread
    cases hparse : Json.parse r.text with
    | ok value =>
      rw [h.reads r value hparse] at hread
      cases hread
    | error e =>
      rw [h.explains r e hparse] at hread
      cases hread
      exact ⟨e.message, rfl⟩

theorem machine_documented : Machine.reader.Documented where
  refuses url r hlow hhigh := by
    by_cases hclient : r.status < 500
    · exact ⟨_, if_pos ⟨hlow, hclient⟩⟩
    · refine ⟨_, (if_neg fun h => hclient h.2).trans (if_pos ⟨by omega, hhigh⟩)⟩
  takes url r h := (if_neg (by omega)).trans (if_neg (by omega))
  reads r value h := by
    change (Json.parse r.text).mapError _ = _
    rw [h]
    rfl
  explains r e h := by
    change (Json.parse r.text).mapError _ = _
    rw [h]
    rfl

theorem Reader.Documented.not_baffles {client : Client} (h : client.reader.Documented) (e : Event)
    (reason : String) : ¬ e.Baffles client reason := by
  rintro ⟨url, parameters, r, -, -, hread⟩
  obtain ⟨_, hreason⟩ := h.expected hread
  cases hreason

namespace Client

variable {client : Client} {events front : List Event} {outcome : Except Error Json}

-- What a call comes to is settled by its last event. It breaks down only there, and no flaw of the
-- request is found in it.
structure Ends (client : Client) (events : List Event) (outcome : Except Error Json) : Prop where
  chart : ∀ chart, outcome = .ok chart ↔
    ∃ e, events.getLast? = some e ∧ e.Delivers client chart
  breakdown : ∀ cause, outcome = .error (.breakdown cause) ↔
    ∃ e, events.getLast? = some e ∧ e.Breaks client cause
  flaw : ∀ f, outcome ≠ .error (.flaw f)

-- Events after which a call goes on.
def Open (client : Client) (events : List Event) : Prop :=
  ∀ e, events.getLast? = some e → e.Idle client

theorem idle_answered (page : String) (r : Response) :
    Event.Idle client (.get page none (.ok r)) :=
  .of nofun nofun

theorem idle_clearCookies : Event.Idle client .clearCookies :=
  .of nofun nofun

theorem idle_sleep (seconds : Int) : Event.Idle client (.sleep seconds) :=
  .of nofun nofun

-- A chart that is not answered for is a failure that the client speaks of.
theorem idle_lost (url : String) (parameters : Parameters) (reason : String) :
    Event.Idle client (.get url (some parameters) (.error reason)) :=
  .of nofun nofun

theorem Open.single {e : Event} (he : e.Idle client) : Open client [e] := by
  intro e' he'
  cases he'
  exact he

theorem Open.cons {e : Event} (he : e.Idle client) (h : Open client events) :
    Open client (e :: events) := by
  intro e' he'
  cases events with
  | nil => exact Open.single he e' he'
  | cons e'' events => exact h e' (by simpa using he')

-- A call that fails at a source ends with an event that settles nothing.
theorem Ends.of_open {e : SourceError} (h : Open client events) :
    Ends client events (.error (.source e)) where
  chart chart := by
    refine ⟨fun h => (nomatch h), ?_⟩
    rintro ⟨e, he, hchart⟩
    exact absurd hchart ((h e he).chart chart)
  breakdown cause := by
    refine ⟨fun h => (nomatch h), ?_⟩
    rintro ⟨e, he, hcause⟩
    exact absurd hcause ((h e he).cause cause)
  flaw f h := nomatch h

theorem Ends.unanswered {page reason : String}
    (hlast : events.getLast? = some (.get page none (.error reason))) :
    Ends client events (.error (.breakdown (.connection reason))) where
  chart chart := by
    refine ⟨fun h => (nomatch h), ?_⟩
    rintro ⟨e, he, url, parameters, r, h, -⟩
    rw [hlast, h] at he
    cases he
  breakdown cause := by
    constructor
    · intro h
      cases h
      exact ⟨_, hlast, .page ⟨page, rfl⟩⟩
    · rintro ⟨e, he, ⟨url, h⟩ | ⟨url, parameters, r, h, -⟩⟩ <;>
        · rw [hlast, h] at he
          cases he
          try rfl
  flaw f h := nomatch h

-- Only what comes last matters, unless nothing comes.
theorem Ends.append (h : Ends client events outcome) (hfront : Open client front) :
    Ends client (front ++ events) outcome := by
  cases events with
  | nil =>
    rw [List.append_nil]
    cases outcome with
    | ok chart =>
      obtain ⟨e, he, -⟩ := (h.chart chart).1 rfl
      cases he
    | error e =>
      cases e with
      | flaw f => exact absurd rfl (h.flaw f)
      | source e => exact .of_open hfront
      | breakdown cause =>
        obtain ⟨e, he, -⟩ := (h.breakdown cause).1 rfl
        cases he
  | cons e events =>
    have hlast : (front ++ e :: events).getLast? = (e :: events).getLast? := by
      simp [List.getLast?_append, List.getLast?_cons]
    exact ⟨fun chart => hlast ▸ h.chart chart, fun cause => hlast ▸ h.breakdown cause, h.flaw⟩

theorem Ends.cons {e : Event} (h : Ends client events outcome) (he : e.Idle client) :
    Ends client (e :: events) outcome :=
  h.append (.single he)

section Answered

variable {ticker url : String} {parameters : Parameters} {r : Response}

-- An answer that is taken as it is settles the call by what is read from it.
theorem Ends.settled (hfinal : r.Final) :
    Ends client [.get url (some parameters) (.ok r)]
      ((client.read url r).mapError (refused ticker)) where
  chart chart := by
    constructor
    · intro h
      cases hread : client.read url r with
      | ok chart' =>
        rw [hread] at h
        cases h
        exact ⟨_, rfl, url, parameters, r, rfl, .inr ⟨hfinal, hread⟩⟩
      | error refusal =>
        rw [hread] at h
        cases h
    · rintro ⟨e, he, url', parameters', r', rfl, h⟩
      cases he
      obtain ⟨hstatus, -⟩ | ⟨-, hread⟩ := h
      · exact absurd hstatus hfinal.known
      · rw [hread]
        rfl
  breakdown cause := by
    constructor
    · intro h
      cases hread : client.read url r with
      | ok chart =>
        rw [hread] at h
        cases h
      | error refusal =>
        rw [hread] at h
        cases refusal with
        | expected reason => cases h
        | unexpected reason =>
          cases h
          exact ⟨_, rfl, .reader ⟨url, parameters, r, rfl, hfinal, hread⟩⟩
    · rintro ⟨e, he, ⟨url', rfl⟩ | ⟨url', parameters', r', rfl, -, hread⟩⟩
      · cases he
      · cases he
        rw [hread]
        rfl
  flaw f h := by
    cases hread : client.read url r with
    | ok chart =>
      rw [hread] at h
      cases h
    | error refusal =>
      rw [hread] at h
      cases refusal <;> cases h

-- An answer that the client does not take settles nothing.
theorem idle_refused (hfinal : ¬ r.Final) (hknown : r.status ≠ 404) :
    Event.Idle client (.get url (some parameters) (.ok r)) where
  chart := by
    rintro chart ⟨url', parameters', r', h, hchart⟩
    cases h
    obtain ⟨hstatus, -⟩ | ⟨hfinal', -⟩ := hchart
    · exact hknown hstatus
    · exact hfinal hfinal'
  cause := by
    rintro _ (⟨url', h⟩ | ⟨url', parameters', r', h, hfinal', -⟩)
    · cases h
    · cases h
      exact hfinal hfinal'

theorem idle_unauthorized (h : r.status = 401) :
    Event.Idle client (.get url (some parameters) (.ok r)) :=
  idle_refused (fun hfinal => hfinal.authorized h) (by omega)

theorem idle_busy (h : busy r.status = true) :
    Event.Idle client (.get url (some parameters) (.ok r)) := by
  refine idle_refused (fun hfinal => ?_) fun hstatus => ?_
  · rw [hfinal.idle] at h
    cases h
  · rw [hstatus] at h
    exact absurd h (by decide)

theorem Ends.unknown (hstatus : r.status = 404) :
    Ends client [.get url (some parameters) (.ok r)] (.ok notFound) where
  chart chart := by
    constructor
    · intro h
      cases h
      exact ⟨_, rfl, url, parameters, r, rfl, .inl ⟨hstatus, rfl⟩⟩
    · rintro ⟨e, he, url', parameters', r', rfl, h⟩
      cases he
      obtain ⟨-, rfl⟩ | ⟨hfinal, -⟩ := h
      · rfl
      · exact absurd hstatus hfinal.known
  breakdown cause := by
    refine ⟨fun h => (nomatch h), ?_⟩
    rintro ⟨e, he, ⟨url', rfl⟩ | ⟨url', parameters', r', rfl, hfinal, -⟩⟩ <;> cases he
    exact absurd hstatus hfinal.known
  flaw f h := nomatch h

end Answered

-- A handshake that hands over a crumb leaves the call open, and one that does not ends it.
def Leaves (client : Client) (events : List Event) : Except Error String → Prop
  | .ok _ => Open client events
  | .error e => Ends client events (.error e)

theorem Leaves.cons {e : Event} {crumb : Except Error String} (h : Leaves client events crumb)
    (he : e.Idle client) : Leaves client (e :: events) crumb := by
  cases crumb with
  | ok text => exact Open.cons he h
  | error e' => exact Ends.cons h he

theorem Hunt.leaves {pages : List String} {crumb : Except Error String}
    (h : Hunt pages events crumb) : Leaves client events crumb := by
  induction h with
  | nowhere => exact .of_open fun e he => (nomatch he)
  | unanswered => exact .unanswered rfl
  | found h => exact Open.single (idle_answered _ _)
  | next h hrest ih => exact ih.cons (idle_answered _ _)

theorem Handshake.leaves {crumb : Except Error String} (h : Handshake events crumb) :
    Leaves client events crumb := by
  cases h with
  | unanswered => exact .unanswered rfl
  | answered h => exact (h.leaves.cons (idle_answered _ _)).cons idle_clearCookies

theorem Tries.ends {ticker url : String} {parameters : Parameters} {last : Option Int}
    {number left : Nat} {crumb crumb' : Crumb}
    (h : Tries client ticker url parameters last number left crumb events outcome crumb') :
    Ends client events outcome := by
  induction h with
  | exhausted => exact .of_open fun e he => (nomatch he)
  | unanswered => exact .of_open (.single (idle_lost _ _ _))
  | shutOut hstatus hhands => exact Ends.cons hhands.leaves (idle_unauthorized hstatus)
  | letIn hstatus hhands hrest ih =>
    exact ih.append (Open.cons (idle_unauthorized hstatus) hhands.leaves)
  | unknown hstatus => exact .unknown hstatus
  | waited hstatus hrest ih => exact (ih.cons (idle_sleep _)).cons (idle_busy hstatus)
  | settled hauthorized hknown hidle => exact .settled ⟨hauthorized, hknown, hidle⟩

theorem Call.ends {ticker : String} {parameters : Parameters} {crumb crumb' : Crumb}
    (h : Call client ticker parameters crumb events outcome crumb') :
    Ends client events outcome := by
  cases h with
  | shutOut hcrumb hhands => exact hhands.leaves
  | letIn hcrumb hhands hrest => exact hrest.ends.append hhands.leaves
  | known hcrumb hrest => exact hrest.ends

end Client

end BarReplay.Yahoo
