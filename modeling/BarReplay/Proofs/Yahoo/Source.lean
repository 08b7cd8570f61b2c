import BarReplay.Proofs.Universe.Partition
import BarReplay.Proofs.Yahoo.Ending
import BarReplay.Proofs.Yahoo.Legible
import BarReplay.Yahoo.Source

namespace BarReplay.Yahoo

open Session Universe

variable {client : Client} {script : Script} {table : Suffixes} {code exchange asked : String}
  {start last : Date} {crumb crumb' : Crumb} {log events : List Event}

-- The ticker that is asked for, if there is one for the instrument.
def Asked (table : Suffixes) (code exchange asked : String) : Prop :=
  ∃ name, ticker table code exchange = .ok name ∧ checked name "1d" = .ok asked

-- The bars that a fetch is for.
def wanted (asked code exchange : String) (start last : Date) : Wanted :=
  ⟨if code.isEmpty then asked else code, exchange, start, last⟩

-- The parameters of a request for the days up to the one in front of `behind`.
def window (start behind : Date) : Parameters :=
  [("period1", .int start.epochSeconds), ("period2", .int behind.epochSeconds),
    ("interval", .text "1d"), ("includePrePost", .text "false"), ("events", .text "")]

-- What a source makes of bars and of what stands in their place.
def settle : Except Error (List (Bar Float)) → Except Breakdown (Answer Float)
  | .ok bars => .ok (.ok bars)
  | .error (.flaw f) => .ok (.error (.unreadable f.message))
  | .error (.source e) => .ok (.error e)
  | .error (.breakdown cause) => .error cause

-- All that a fetch can do: it is refused, it fails at the end of the calendar, or it asks for a
-- chart.
inductive Fetch (client : Client) (table : Suffixes) (code exchange : String) (start last : Date) :
    Crumb → List Event → Except Breakdown (Answer Float) → Crumb → Prop
  | refused {crumb : Crumb} {e : SourceError}
      (h : (∀ asked, ¬ Asked table code exchange asked) ∨ last < start) :
    Fetch client table code exchange start last crumb [] (.ok (.error e)) crumb
  | lastDay {crumb : Crumb} {asked : String} (hasked : Asked table code exchange asked)
      (hdates : start ≤ last) (hlast : last.next? = none) :
    Fetch client table code exchange start last crumb [] (.error .overflow) crumb
  | called {crumb crumb' : Crumb} {asked : String} {behind : Date} {events : List Event}
      {outcome : Except Error Json} (hasked : Asked table code exchange asked)
      (hdates : start ≤ last) (hlast : last.next? = some behind)
      (hcall : Client.Call client asked (window start behind) crumb events outcome crumb') :
    Fetch client table code exchange start last crumb events
      (settle (outcome >>= Response.bars (wanted asked code exchange start last))) crumb'

theorem on_fetchDays (client : Client) (script : Script) (hasked : Asked table code exchange asked)
    (start last : Date) (crumb : Crumb) (log : List Event) : ∃ events outcome crumb',
    Fetch client table code exchange start last crumb events (settle outcome) crumb' ∧
      on (fetchDays (client.chart (scripted script)) asked "1d" code exchange start last) crumb
          log = (outcome, crumb', log ++ events) := by
  unfold fetchDays
  by_cases hdates : last < start
  · refine ⟨[], .error (.flaw (.dateOrder start last)), crumb, .refused (.inr hdates), ?_⟩
    rw [if_pos hdates, List.append_nil]
    rfl
  rw [if_neg hdates]
  cases hlast : last.next? with
  | none =>
    refine ⟨[], .error (.breakdown .overflow), crumb,
      .lastDay hasked (le_of_not_gt hdates) hlast, ?_⟩
    rw [List.append_nil]
    rfl
  | some behind =>
    obtain ⟨events, outcome, crumb', hcall, hrun⟩ :=
      Client.on_chart script crumb log client asked (window start behind)
    refine ⟨events, outcome >>= Response.bars (wanted asked code exchange start last), crumb',
      .called hasked (le_of_not_gt hdates) hlast hcall, ?_⟩
    change on (client.chart (scripted script) asked (window start behind) >>= fun data =>
      ExceptT.mk (pure (Response.bars (wanted asked code exchange start last) data))) crumb log = _
    rw [on_bind, hrun]
    cases outcome <;> rfl

theorem on_source (client : Client) (script : Script) (table : Suffixes) (code exchange : String)
    (start last : Date) (crumb : Crumb) (log : List Event) : ∃ events outcome crumb',
    Fetch client table code exchange start last crumb events outcome crumb' ∧
      on (source table (client.chart (scripted script)) code exchange start last) crumb log =
        (outcome, crumb', log ++ events) := by
  unfold source
  cases hname : ticker table code exchange with
  | error e =>
    refine ⟨[], _, crumb, .refused (.inl ?_), by rw [List.append_nil]; rfl⟩
    rintro asked ⟨name, h, -⟩
    rw [hname] at h
    cases h
  | ok name =>
    dsimp only
    cases hchecked : checked name "1d" with
    | error f =>
      refine ⟨[], _, crumb, .refused (.inl ?_), by rw [List.append_nil]; rfl⟩
      rintro asked ⟨name', h, h'⟩
      rw [hname] at h
      cases h
      rw [hchecked] at h'
      cases h'
    | ok asked =>
      obtain ⟨events, outcome, crumb', hfetch, hrun⟩ :=
        on_fetchDays client script ⟨name, hname, hchecked⟩ start last crumb log
      refine ⟨events, settle outcome, crumb', hfetch, ?_⟩
      dsimp only
      rw [on_lift_run_bind, hrun]
      cases outcome with
      | ok bars => rfl
      | error e => cases e <;> rfl

-- What ends a fetch without a word for whoever asked for the bars.
inductive Escapes (client : Client) (table : Suffixes) (code exchange : String)
    (start last : Date) (events : List Event) : Prop
  -- there is no day behind the last one
  | lastDay {asked : String} (hasked : Asked table code exchange asked) (hdates : start ≤ last)
      (hlast : last.next? = none)
  -- a page of the handshake gives no answer
  | handshake {e : Event} {reason : String} (he : events.getLast? = some e)
      (h : e.Unanswered reason)
  -- a chart has parts of other kinds than they are taken for
  | illegible {e : Event} {asked : String} {chart : Json}
      (hasked : Asked table code exchange asked) (he : events.getLast? = some e)
      (h : e.Delivers client chart)
      (hshape : ¬ Response.Legible (wanted asked code exchange start last) chart)

theorem Asked.unique {asked' : String} (h : Asked table code exchange asked)
    (h' : Asked table code exchange asked') : asked = asked' := by
  obtain ⟨name, hname, hchecked⟩ := h
  obtain ⟨name', hname', hchecked'⟩ := h'
  rw [hname] at hname'
  cases hname'
  rw [hchecked] at hchecked'
  exact Except.ok.inj hchecked'

theorem settle_eq_error_iff {outcome : Except Error (List (Bar Float))} {cause : Breakdown} :
    settle outcome = .error cause ↔ outcome = .error (.breakdown cause) := by
  cases outcome with
  | ok bars => simp [settle]
  | error e => cases e <;> simp [settle]

theorem settle_eq_ok_ok_iff {outcome : Except Error (List (Bar Float))} {bars : List (Bar Float)} :
    settle outcome = .ok (.ok bars) ↔ outcome = .ok bars := by
  cases outcome with
  | ok bars => simp [settle]
  | error e => cases e <;> simp [settle]

-- A chart that is called for escapes before it is there, or for its shape.
theorem settle_chart_iff {outcome : Except Error Json} {w : Wanted} :
    (∃ cause, settle (outcome >>= Response.bars w) = .error cause) ↔
      (∃ cause, outcome = .error (.breakdown cause)) ∨
        ∃ chart, outcome = .ok chart ∧ ¬ Response.Legible w chart := by
  simp only [settle_eq_error_iff, except_bind_eq_error, exists_or, ← Response.sound_bars,
    Response.Sound, not_forall, not_not]
  exact or_congr_right ⟨fun ⟨cause, chart, h, hbars⟩ => ⟨chart, h, cause, hbars⟩,
    fun ⟨chart, h, cause, hbars⟩ => ⟨cause, chart, h, hbars⟩⟩

-- Bars that are answered are some, and there is no answer exactly if the fetch escapes.
theorem Fetch.answer {outcome : Except Breakdown (Answer Float)}
    (hreader : client.reader.Documented)
    (h : Fetch client table code exchange start last crumb events outcome crumb') :
    (∀ bars, outcome = .ok (.ok bars) → bars ≠ []) ∧
      ((∃ cause, outcome = .error cause) ↔ Escapes client table code exchange start last events) := by
  cases h with
  | refused h =>
    refine ⟨fun bars h => (nomatch h), fun ⟨cause, h⟩ => (nomatch h), fun hescapes => ?_⟩
    cases hescapes with
    | lastDay hasked hdates hlast =>
      obtain hnone | hdates' := h
      · exact absurd hasked (hnone _)
      · exact absurd hdates' (not_lt.2 hdates)
    | handshake he => cases he
    | illegible hasked he => cases he
  | lastDay hasked hdates hlast =>
    exact ⟨fun bars h => (nomatch h), fun _ => .lastDay hasked hdates hlast, fun _ => ⟨_, rfl⟩⟩
  | called hasked hdates hlast hcall =>
    rename_i asked behind outcome
    have hends := hcall.ends
    constructor
    · intro bars hbars
      obtain ⟨chart, -, hread⟩ := except_bind_eq_ok.1 (settle_eq_ok_ok_iff.1 hbars)
      exact Response.bars_ne_nil hread
    rw [settle_chart_iff]
    constructor
    · rintro (⟨cause, h⟩ | ⟨chart, h, hshape⟩)
      · obtain ⟨e, he, hbreaks⟩ := (hends.breakdown cause).1 h
        cases hbreaks with
        | page hunanswered => exact .handshake he hunanswered
        | reader hbaffles => exact absurd hbaffles (hreader.not_baffles e _)
      · obtain ⟨e, he, hdelivers⟩ := (hends.chart chart).1 h
        exact .illegible hasked he hdelivers hshape
    · intro hescapes
      cases hescapes with
      | lastDay _ _ hnone =>
        rw [hlast] at hnone
        cases hnone
      | @handshake e reason he h =>
        exact .inl ⟨_, (hends.breakdown (.connection reason)).2 ⟨e, he, .page h⟩⟩
      | @illegible e asked' chart hasked' he h hshape =>
        obtain rfl := hasked.unique hasked'
        exact .inr ⟨chart, (hends.chart chart).2 ⟨e, he, h⟩, hshape⟩

-- An answer that is no bars is written down as a skip.
theorem mem_skips {codes : List String} {answers : List (Answer Float)} {minimum : Int}
    {e : SourceError} (h : (code, .error e) ∈ codes.zip answers) :
    ∃ skip ∈ skips (verdict exchange minimum codes answers),
      LeftOut minimum code (.error e : Answer Float) skip := by
  cases hjudge : judge minimum code (.error e : Answer Float) with
  | ok bars => cases (judge_eq_ok_iff.1 hjudge).1
  | error skip =>
    refine ⟨skip, ?_, judge_eq_error_iff.1 hjudge⟩
    rw [skips_verdict, List.mem_filterMap]
    exact ⟨_, h, leave?_of_error hjudge⟩

-- A fetch, and a request for several instruments, over a net that answers by a script.

abbrev fetchBy (client : Client) (script : Script) (table : Suffixes) (exchange : String)
    (start last : Date) (code : String) : Session Breakdown (Answer Float) :=
  source table (client.chart (scripted script)) code exchange start last

abbrev validateBy (client : Client) (script : Script) (table : Suffixes) (exchange : String)
    (start last : Date) (codes : List String) (minimum : Int) :
    Session Breakdown (Except Universe.Error (Validation Float)) :=
  validate (source table (client.chart (scripted script))) codes exchange (some start) (some last)
    minimum

-- Whatever the net answers, a fetch has some bars or an error of the source, or else it escapes, at
-- the end of the calendar, at a page of the handshake without an answer or at a chart that is not
-- legible, and in no other way. A request for some instruments writes down what fails at the source
-- and goes on, and it ends at the first fetch that escapes.
theorem source_answers_or_escapes (client : Client) (hreader : client.reader.Documented)
    (script : Script) (table : Suffixes) (exchange : String) (start last : Date) :
    (∀ code crumb log, ∃ outcome crumb' events,
      on (fetchBy client script table exchange start last code) crumb log =
        (outcome, crumb', log ++ events) ∧
      (∀ bars, outcome = .ok (.ok bars) → bars ≠ []) ∧
      ((∃ cause, outcome = .error cause) ↔ Escapes client table code exchange start last events)) ∧
    ∀ codes minimum crumb log, codes ≠ [] →
      (∃ answers crumb' log',
        Answers (fetchBy client script table exchange start last) codes crumb log answers crumb'
          log' ∧
        on (validateBy client script table exchange start last codes minimum) crumb log =
          (.ok (verdict exchange minimum codes answers), crumb', log') ∧
        ∀ code e, (code, .error e) ∈ codes.zip answers →
          ∃ skip ∈ skips (verdict exchange minimum codes answers),
            LeftOut minimum code (.error e : Answer Float) skip) ∨
      ∃ front code rest answers crumb' log' crumb'' events cause, codes = front ++ code :: rest ∧
        Answers (fetchBy client script table exchange start last) front crumb log answers crumb'
          log' ∧
        Escapes client table code exchange start last events ∧
        on (fetchBy client script table exchange start last code) crumb' log' =
          (.error cause, crumb'', log' ++ events) ∧
        on (validateBy client script table exchange start last codes minimum) crumb log =
          (.error cause, crumb'', log' ++ events) := by
  constructor
  · intro code crumb log
    obtain ⟨events, outcome, crumb', hfetch, hrun⟩ :=
      on_source client script table code exchange start last crumb log
    exact ⟨outcome, crumb', events, hrun, hfetch.answer hreader⟩
  · intro codes minimum crumb log hcodes
    rw [validateBy, validate_eq _ hcodes, map_eq_pure_bind, on_bind]
    obtain ⟨answers, crumb', log', hanswers, hrun⟩ |
      ⟨front, code, rest, answers, crumb', log', cause, crumb'', log'', rfl, hanswers, hcode,
        hrun⟩ := on_mapM (fetchBy client script table exchange start last) codes crumb log
    · rw [hrun]
      exact .inl ⟨answers, crumb', log', hanswers, rfl, fun code e h => mem_skips h⟩
    · obtain ⟨events, outcome, c, hfetch, hsource⟩ :=
        on_source client script table code exchange start last crumb' log'
      rw [hcode] at hsource
      cases hsource
      rw [hrun]
      exact .inr ⟨front, code, rest, answers, crumb', log', crumb'', events, cause, rfl, hanswers,
        (hfetch.answer hreader).2.1 ⟨cause, rfl⟩, hcode, rfl⟩

def january (day : Nat) (h : 1 ≤ day ∧ day ≤ 31) : Date :=
  ⟨2020, 1, day, by decide, by decide, h⟩

-- A net that knows no ticker.
def unknownTickers : Script := fun _ _ _ => .ok ⟨404, "", "Not Found"⟩

theorem source_answers_or_escapes_unknown :
    Machine.reader.Documented ∧ ["BHP", "CBA"] ≠ [] ∧ ∃ answers crumb log,
      on (validateBy (.standard Machine.reader) unknownTickers suffixes "ASX"
          (january 1 (by decide)) (january 31 (by decide)) ["BHP", "CBA"] 30) (some "crumb") [] =
        (.ok (verdict "ASX" 30 ["BHP", "CBA"] answers), crumb, log) := by
  refine ⟨machine_documented, by decide, ?_⟩
  obtain ⟨answers, crumb, log, -, hrun, -⟩ | ⟨_, _, _, _, _, _, _, _, cause, -, -, -, -, hrun⟩ :=
    (source_answers_or_escapes (.standard Machine.reader) machine_documented unknownTickers
      suffixes "ASX" (january 1 (by decide)) (january 31 (by decide))).2 ["BHP", "CBA"] 30
        (some "crumb") [] (by decide)
  · exact ⟨answers, crumb, log, hrun⟩
  · have hok : (on (validateBy (.standard Machine.reader) unknownTickers suffixes "ASX"
        (january 1 (by decide)) (january 31 (by decide)) ["BHP", "CBA"] 30) (some "crumb")
          []).1.isOk = true := by
      decide
    rw [hrun] at hok
    cases hok

-- A net that is down.
def noAnswers : Script := fun _ _ _ => .error "down"

def lastDate : Date :=
  ⟨9999, 12, 31, by decide, by decide, by decide⟩

-- A net that is down ends a fetch, and the request that it is made for, with an error that is not
-- one of the source; so do a chart that is an empty list and a request up to the end of the
-- calendar.
theorem escapes_of_each_kind :
    (on (fetchBy (.standard Machine.reader) noAnswers suffixes "ASX" (january 1 (by decide))
        (january 31 (by decide)) "BHP") none []).1 = .error (.connection "down") ∧
    (on (validateBy (.standard Machine.reader) noAnswers suffixes "ASX" (january 1 (by decide))
        (january 31 (by decide)) ["BHP", "CBA"] 30) none []).1 = .error (.connection "down") ∧
    ((source suffixes (fun _ _ => (pure (.list []) : ExceptT Error Id Json)) "BHP" "ASX"
        (january 1 (by decide)) (january 31 (by decide))).run : Except _ _) = .error .noMembers ∧
    (on (fetchBy (.standard Machine.reader) noAnswers suffixes "ASX" (january 1 (by decide))
        lastDate "BHP") none []).1 = .error .overflow := by
  exact ⟨rfl, rfl, rfl, rfl⟩

end BarReplay.Yahoo
