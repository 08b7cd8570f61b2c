import BarReplay.Proofs.Replay.Days
import Mathlib.Data.List.Nodup

namespace BarReplay.Universe

variable {α : Type} {minimum : Int} {code : String} {bars : List (Bar α)} {skip : Skip}

-- What a source says when it is asked for the bars of an instrument.
abbrev Answer (α : Type) := Except SourceError (List (Bar α))

-- At least one bar, and as many as a run needs.
def Enough (minimum : Int) (bars : List (Bar α)) : Prop :=
  max 1 minimum ≤ (bars.length : Int)

-- The source could not be read, which is not to say that it has nothing.
def FetchFailed (answer : Answer α) : Prop :=
  ∃ e, answer = .error e ∧ ∀ code exchange, e ≠ .noData code exchange

-- Why an answer leaves an instrument out, and what is written down about it.
inductive LeftOut (minimum : Int) (code : String) : Answer α → Skip → Prop
  | unknown (asked exchange : String) :
    LeftOut minimum code (.error (.noData asked exchange)) ⟨code, .noData, 0, "", minimumBars⟩
  | empty : LeftOut minimum code (.ok []) ⟨code, .noData, 0, "", minimumBars⟩
  | failed {e : SourceError} (h : ∀ asked exchange, e ≠ .noData asked exchange) :
    LeftOut minimum code (.error e) ⟨code, .fetchError, 0, e.message, minimumBars⟩
  | few {bars : List (Bar α)} (some : bars ≠ []) (h : (bars.length : Int) < minimum) :
    LeftOut minimum code (.ok bars) ⟨code, .insufficientBars, bars.length, "", minimum⟩

theorem LeftOut.code_eq {answer : Answer α} (h : LeftOut minimum code answer skip) :
    skip.code = code := by
  cases h <;> rfl

-- Only a failure of the source is written down as one.
theorem LeftOut.reason_iff {answer : Answer α} (h : LeftOut minimum code answer skip) :
    skip.reason = .fetchError ↔ FetchFailed answer := by
  cases h with
  | unknown asked exchange =>
    refine ⟨fun h => (nomatch h), ?_⟩
    rintro ⟨e, he, hne⟩
    cases he
    exact absurd rfl (hne asked exchange)
  | failed h => exact ⟨fun _ => ⟨_, rfl, h⟩, fun _ => rfl⟩
  | empty => exact ⟨fun h => (nomatch h), fun ⟨_, he, _⟩ => (nomatch he)⟩
  | few => exact ⟨fun h => (nomatch h), fun ⟨_, he, _⟩ => (nomatch he)⟩

theorem judge_eq_ok_iff {answer : Answer α} :
    judge minimum code answer = .ok bars ↔ answer = .ok bars ∧ Enough minimum bars := by
  cases answer with
  | error e => cases e <;> simp [judge]
  | ok found =>
    cases found with
    | nil =>
      simp only [judge, reduceCtorEq, false_iff, not_and, Except.ok.injEq]
      rintro rfl
      simp only [Enough, List.length_nil]
      omega
    | cons b bs =>
      simp only [judge, requireHistory]
      by_cases hfew : ((b :: bs).length : Int) < minimum
      · simp only [hfew, if_true, reduceCtorEq, false_iff, not_and, Except.ok.injEq]
        rintro rfl
        simp only [Enough]
        omega
      · simp only [hfew, if_false, Except.ok.injEq, iff_self_and]
        rintro rfl
        simp only [Enough, List.length_cons] at hfew ⊢
        omega

theorem judge_eq_error_iff {answer : Answer α} :
    judge minimum code answer = .error skip ↔ LeftOut minimum code answer skip := by
  constructor
  · intro h
    cases answer with
    | error e =>
      cases e with
      | noData asked exchange =>
        cases h
        exact .unknown asked exchange
      | unreadable reason =>
        cases h
        exact .failed (by simp)
      | noChart reason =>
        cases h
        exact .failed (by simp)
    | ok found =>
      cases found with
      | nil =>
        cases h
        exact .empty
      | cons b bs =>
        simp only [judge, requireHistory] at h
        by_cases hfew : ((b :: bs).length : Int) < minimum
        · simp only [hfew, if_true] at h
          cases h
          exact .few (List.cons_ne_nil b bs) hfew
        · simp only [hfew, if_false] at h
          cases h
  · intro h
    cases h with
    | unknown => rfl
    | empty => rfl
    | @failed e h =>
      cases e with
      | noData asked exchange => exact absurd rfl (h asked exchange)
      | unreadable => rfl
      | noChart => rfl
    | @few bars hsome h =>
      cases bars with
      | nil => exact absurd rfl hsome
      | cons b bs => simp only [judge, requireHistory, h, if_true]

-- The instrument that an answer admits, if it does.
def passed? (minimum : Int) (x : String × Answer α) : Option (String × List (Bar α)) :=
  (judge minimum x.1 x.2).toOption.map fun bars => (x.1, bars)

-- What is written down about an instrument that an answer leaves out.
def leave? (minimum : Int) (x : String × Answer α) : Option Skip :=
  match judge minimum x.1 x.2 with
  | .ok _ => none
  | .error skip => some skip

theorem passed?_of_ok {x : String × Answer α} (h : judge minimum x.1 x.2 = .ok bars) :
    passed? minimum x = some (x.1, bars) := by
  rw [passed?, h]
  rfl

theorem passed?_of_error {x : String × Answer α} (h : judge minimum x.1 x.2 = .error skip) :
    passed? minimum x = none := by
  rw [passed?, h]
  rfl

theorem leave?_of_ok {x : String × Answer α} (h : judge minimum x.1 x.2 = .ok bars) :
    leave? minimum x = none := by
  rw [leave?, h]

theorem leave?_of_error {x : String × Answer α} (h : judge minimum x.1 x.2 = .error skip) :
    leave? minimum x = some skip := by
  rw [leave?, h]

theorem passed?_eq_some_iff {x : String × Answer α} {entry : String × List (Bar α)} :
    passed? minimum x = some entry ↔ x = (entry.1, .ok entry.2) ∧ Enough minimum entry.2 := by
  obtain ⟨code, answer⟩ := x
  obtain ⟨named, bars⟩ := entry
  have hok : judge minimum code answer = .ok bars ↔ answer = .ok bars ∧ Enough minimum bars :=
    judge_eq_ok_iff
  cases hjudge : judge minimum code answer with
  | error skip =>
    rw [hjudge] at hok
    rw [passed?_of_error hjudge]
    refine ⟨fun h => (nomatch h), fun ⟨h, henough⟩ => ?_⟩
    cases h
    cases hok.2 ⟨rfl, henough⟩
  | ok found =>
    rw [hjudge] at hok
    rw [passed?_of_ok hjudge]
    constructor
    · intro h
      cases h
      obtain ⟨rfl, henough⟩ := hok.1 rfl
      exact ⟨rfl, henough⟩
    · rintro ⟨h, henough⟩
      cases h
      cases hok.2 ⟨rfl, henough⟩
      rfl

theorem leave?_eq_some_iff {x : String × Answer α} :
    leave? minimum x = some skip ↔ LeftOut minimum x.1 x.2 skip := by
  rw [← judge_eq_error_iff]
  cases hjudge : judge minimum x.1 x.2 with
  | ok bars => simp [leave?_of_ok hjudge]
  | error judged => simp [leave?_of_error hjudge]

theorem keepBars_of_new {admitted : List (String × List (Bar α))}
    (h : code ∉ admitted.map Prod.fst) :
    keepBars code bars admitted = admitted ++ [(code, bars)] := by
  have hnone : admitted.any (·.1 == code) = false := by
    rw [List.any_eq_false]
    intro entry hentry heq
    exact h (List.mem_map.2 ⟨entry, hentry, by simpa using heq⟩)
  rw [keepBars, hnone, if_neg Bool.false_ne_true]

-- Answers that are noted one after the other.
def noteAll (minimum : Int) (v : Validation α) (asked : List (String × Answer α)) :
    Validation α :=
  asked.foldl (fun v x => v.note minimum x.1 x.2) v

theorem noteAll_cons (minimum : Int) (v : Validation α) (x : String × Answer α)
    (asked : List (String × Answer α)) :
    noteAll minimum v (x :: asked) = noteAll minimum (v.note minimum x.1 x.2) asked := rfl

-- Answers for different instruments are noted independently of each other.
theorem noteAll_eq {asked : List (String × Answer α)} {v : Validation α}
    (h : (v.admitted.map Prod.fst ++ asked.map Prod.fst).Nodup) :
    noteAll minimum v asked =
      ⟨v.exchange, v.admitted ++ asked.filterMap (passed? minimum),
        v.skipped ++ asked.filterMap (leave? minimum)⟩ := by
  induction asked generalizing v with
  | nil => simp [noteAll]
  | cons x asked ih =>
    rw [List.map_cons, List.nodup_middle, List.nodup_cons] at h
    obtain ⟨hx, hrest⟩ := h
    rw [noteAll_cons]
    cases hjudge : judge minimum x.1 x.2 with
    | error skip =>
      have hnote : v.note minimum x.1 x.2 = { v with skipped := v.skipped ++ [skip] } := by
        simp only [Validation.note, hjudge]
      rw [hnote, ih (v := { v with skipped := v.skipped ++ [skip] }) hrest,
        List.filterMap_cons_none (passed?_of_error hjudge),
        List.filterMap_cons_some (leave?_of_error hjudge), List.append_assoc]
      rfl
    | ok bars =>
      have hnew : x.1 ∉ v.admitted.map Prod.fst := fun hmem => hx (List.mem_append_left _ hmem)
      have hnote : v.note minimum x.1 x.2 =
          { v with admitted := v.admitted ++ [(x.1, bars)] } := by
        simp only [Validation.note, hjudge, keepBars_of_new hnew]
      have hnodup : ((v.admitted ++ [(x.1, bars)]).map Prod.fst ++ asked.map Prod.fst).Nodup := by
        rw [List.map_append, List.append_assoc, List.map_singleton, List.singleton_append,
          List.nodup_middle]
        exact List.nodup_cons.2 ⟨hx, hrest⟩
      rw [hnote, ih (v := { v with admitted := v.admitted ++ [(x.1, bars)] }) hnodup,
        List.filterMap_cons_some (passed?_of_ok hjudge),
        List.filterMap_cons_none (leave?_of_ok hjudge), List.append_assoc]
      rfl

-- What is admitted and what is left out make up what was asked for, both in its order.
structure Validation.Splits (minimum : Int) (asked : List (String × Answer α))
    (v : Validation α) : Prop where
  perm : (v.codes ++ v.skipped.map (·.code)).Perm (asked.map Prod.fst)
  codes : v.codes.Sublist (asked.map Prod.fst)
  skips : (v.skipped.map (·.code)).Sublist (asked.map Prod.fst)
  admitted : ∀ code bars, (code, bars) ∈ v.admitted ↔
    (code, .ok bars) ∈ asked ∧ Enough minimum bars
  skipped : ∀ skip, skip ∈ v.skipped ↔
    ∃ answer, (skip.code, answer) ∈ asked ∧ LeftOut minimum skip.code answer skip

-- Every answer either admits its instrument or leaves it out.
theorem judged_splits (minimum : Int) (asked : List (String × Answer α)) :
    ((asked.filterMap (passed? minimum)).map Prod.fst ++
        (asked.filterMap (leave? minimum)).map (·.code)).Perm (asked.map Prod.fst) ∧
      ((asked.filterMap (passed? minimum)).map Prod.fst).Sublist (asked.map Prod.fst) ∧
      ((asked.filterMap (leave? minimum)).map (·.code)).Sublist (asked.map Prod.fst) := by
  induction asked with
  | nil => exact ⟨.nil, .slnil, .slnil⟩
  | cons x asked ih =>
    obtain ⟨hperm, hadmitted, hskipped⟩ := ih
    cases hjudge : judge minimum x.1 x.2 with
    | ok bars =>
      rw [List.filterMap_cons_some (passed?_of_ok hjudge),
        List.filterMap_cons_none (leave?_of_ok hjudge)]
      exact ⟨hperm.cons x.1, hadmitted.cons_cons x.1, hskipped.cons x.1⟩
    | error skip =>
      rw [List.filterMap_cons_none (passed?_of_error hjudge),
        List.filterMap_cons_some (leave?_of_error hjudge), List.map_cons (f := Skip.code),
        (judge_eq_error_iff.1 hjudge).code_eq]
      exact ⟨List.perm_middle.trans (hperm.cons x.1), hadmitted.cons x.1, hskipped.cons_cons x.1⟩

-- Noting the answers for different instruments splits them.
theorem noteAll_splits (minimum : Int) {asked : List (String × Answer α)}
    (h : (asked.map Prod.fst).Nodup) (exchange : String) :
    (noteAll minimum ⟨exchange, [], []⟩ asked).Splits minimum asked := by
  rw [noteAll_eq (v := ⟨exchange, [], []⟩) h]
  obtain ⟨hperm, hadmitted, hskipped⟩ := judged_splits minimum asked
  constructor
  case perm => exact hperm
  case codes => exact hadmitted
  case skips => exact hskipped
  case admitted =>
    intro code bars
    simp only [List.nil_append, List.mem_filterMap, passed?_eq_some_iff]
    exact ⟨fun ⟨_, hmem, rfl, henough⟩ => ⟨hmem, henough⟩,
      fun ⟨hmem, henough⟩ => ⟨_, hmem, rfl, henough⟩⟩
  case skipped =>
    intro skip
    simp only [List.nil_append, List.mem_filterMap, leave?_eq_some_iff]
    constructor
    · rintro ⟨⟨code, answer⟩, hmem, hleft⟩
      have hcode : skip.code = code := hleft.code_eq
      exact ⟨answer, hcode ▸ hmem, hcode.symm ▸ hleft⟩
    · rintro ⟨answer, hmem, hleft⟩
      exact ⟨_, hmem, hleft⟩

-- With nothing admitted, all that is written down are failures of the source just if all answers
-- are.
theorem Validation.Splits.failed_iff {asked : List (String × Answer α)} {v : Validation α}
    (h : v.Splits minimum asked) (hempty : v.admitted = []) :
    (∀ skip ∈ v.skipped, skip.reason = .fetchError) ↔ ∀ x ∈ asked, FetchFailed x.2 := by
  constructor
  · rintro hall ⟨code, answer⟩ hmem
    cases hjudge : judge minimum code answer with
    | ok bars =>
      obtain ⟨rfl, henough⟩ := judge_eq_ok_iff.1 hjudge
      have hadmitted := (h.admitted code bars).2 ⟨hmem, henough⟩
      rw [hempty] at hadmitted
      cases hadmitted
    | error skip =>
      have hleft := judge_eq_error_iff.1 hjudge
      obtain rfl := hleft.code_eq
      exact hleft.reason_iff.1 (hall skip ((h.skipped skip).2 ⟨answer, hmem, hleft⟩))
  · intro hall skip hskip
    obtain ⟨answer, hmem, hleft⟩ := (h.skipped skip).1 hskip
    exact hleft.reason_iff.2 (hall _ hmem)

-- What becomes of a request when the answers are known.
def verdict (exchange : String) (minimum : Int) (codes : List String) (answers : List (Answer α)) :
    Except Error (Validation α) :=
  (noteAll minimum ⟨exchange, [], []⟩ (codes.zip answers)).settle codes.length minimum

-- What is written down about the instruments that are left out, whether anything is left to run or
-- not.
def skips : Except Error (Validation α) → List Skip
  | .ok v => v.skipped
  | .error (.allFailed _ _ skipped) | .error (.allInsufficient _ _ skipped) => skipped
  | .error .noCodes | .error .noDates => []

theorem noteAll_skipped (asked : List (String × Answer α)) (v : Validation α) :
    (noteAll minimum v asked).skipped = v.skipped ++ asked.filterMap (leave? minimum) := by
  induction asked generalizing v with
  | nil => exact (List.append_nil _).symm
  | cons x asked ih =>
    rw [noteAll_cons, ih]
    cases hjudge : judge minimum x.1 x.2 with
    | ok bars =>
      rw [List.filterMap_cons_none (leave?_of_ok hjudge)]
      simp only [Validation.note, hjudge]
    | error skip =>
      rw [List.filterMap_cons_some (leave?_of_error hjudge)]
      simp only [Validation.note, hjudge, List.append_assoc, List.singleton_append]

-- Bars are put in the place of earlier ones of the same instrument.
theorem keepBars_codes_nodup {admitted : List (String × List (Bar α))}
    (h : (admitted.map Prod.fst).Nodup) : ((keepBars code bars admitted).map Prod.fst).Nodup := by
  by_cases hnew : code ∉ admitted.map Prod.fst
  · rw [keepBars_of_new hnew, List.map_append]
    refine List.nodup_append.2 ⟨h, List.nodup_singleton _, fun a ha b hb hab => hnew ?_⟩
    have hcode : b = code := List.mem_singleton.1 hb
    rwa [← hcode, ← hab]
  · obtain ⟨entry, hentry, hcode⟩ := List.mem_map.1 (not_not.1 hnew)
    have hany : admitted.any (·.1 == code) = true :=
      List.any_eq_true.2 ⟨entry, hentry, by simp [hcode]⟩
    have hsame : (keepBars code bars admitted).map Prod.fst = admitted.map Prod.fst := by
      rw [keepBars, hany, if_pos rfl, List.map_map]
      refine List.map_congr_left fun entry _ => ?_
      by_cases heq : (entry.1 == code) = true
      · simp only [Function.comp_apply, heq, if_true]
        exact (eq_of_beq heq).symm
      · simp only [Function.comp_apply, heq, Bool.false_eq_true, if_false]
    exact hsame ▸ h

theorem noteAll_codes_nodup (minimum : Int) (asked : List (String × Answer α)) {v : Validation α}
    (h : v.codes.Nodup) : (noteAll minimum v asked).codes.Nodup := by
  induction asked generalizing v with
  | nil => exact h
  | cons x asked ih =>
    rw [noteAll_cons]
    refine ih ?_
    unfold Validation.note
    split
    · exact keepBars_codes_nodup h
    · exact h

-- No instrument is admitted twice, however often it is asked for.
theorem verdict_codes_nodup {exchange : String} {codes : List String} {answers : List (Answer α)}
    {v : Validation α} (h : verdict exchange minimum codes answers = .ok v) : v.codes.Nodup := by
  have hnodup : (noteAll minimum (α := α) ⟨exchange, [], []⟩ (codes.zip answers)).codes.Nodup :=
    noteAll_codes_nodup _ _ List.nodup_nil
  unfold verdict Validation.settle at h
  split at h
  · cases h
    exact hnodup
  · split at h <;> cases h

-- Every answer that leaves its instrument out is written down, in order, also where instruments
-- are asked for more than once.
theorem skips_verdict (exchange : String) (minimum : Int) (codes : List String)
    (answers : List (Answer α)) :
    skips (verdict exchange minimum codes answers) =
      (codes.zip answers).filterMap (leave? minimum) := by
  have hskipped := @noteAll_skipped _ minimum (codes.zip answers) ⟨exchange, [], []⟩
  rw [List.nil_append] at hskipped
  rw [← hskipped, verdict, Validation.settle]
  split
  · rfl
  split <;> rfl

section Request

variable {codes : List String} {answers : List (Answer α)}

theorem noteAll_exchange (asked : List (String × Answer α)) (v : Validation α) :
    (noteAll minimum v asked).exchange = v.exchange := by
  induction asked generalizing v with
  | nil => rfl
  | cons x asked ih =>
    rw [noteAll_cons, ih]
    unfold Validation.note
    split <;> rfl

-- A request with an instrument that has enough bars is split.
theorem verdict_of_enough (hcodes : codes.Nodup) (hlength : answers.length = codes.length)
    (exchange : String) {code : String} {bars : List (Bar α)}
    (hmem : (code, .ok bars) ∈ codes.zip answers) (henough : Enough minimum bars) :
    ∃ v, verdict exchange minimum codes answers = .ok v ∧ v.exchange = exchange ∧
      v.Splits minimum (codes.zip answers) := by
  have hfst : (codes.zip answers).map Prod.fst = codes := List.map_fst_zip (by omega)
  have hsplits := noteAll_splits minimum (hfst.symm ▸ hcodes) exchange
  have hadmitted := (hsplits.admitted code bars).2 ⟨hmem, henough⟩
  have hsome : (noteAll minimum ⟨exchange, [], []⟩ (codes.zip answers)).admitted.isEmpty = false :=
    List.isEmpty_eq_false_iff.2 (List.ne_nil_of_mem hadmitted)
  refine ⟨_, ?_, noteAll_exchange _ _, hsplits⟩
  simp only [verdict, Validation.settle, hsome, Bool.not_false, if_true]

-- A request without one fails, with a skip for every instrument in order. The failure is one of
-- the source if that is what every instrument failed at.
theorem verdict_of_none (hcodes : codes.Nodup) (hlength : answers.length = codes.length)
    (exchange : String)
    (hnone : ∀ code bars, (code, .ok bars) ∈ codes.zip answers → ¬ Enough minimum bars) :
    ∃ skipped : List Skip, skipped.map (·.code) = codes ∧
      (∀ skip ∈ skipped, ∃ answer, (skip.code, answer) ∈ codes.zip answers ∧
        LeftOut minimum skip.code answer skip) ∧
      ((∀ answer ∈ answers, FetchFailed answer) ∧
          verdict exchange minimum codes answers =
            .error (.allFailed codes.length exchange skipped) ∨
        ¬ (∀ answer ∈ answers, FetchFailed answer) ∧
          verdict exchange minimum codes answers =
            .error (.allInsufficient exchange minimum skipped)) := by
  have hfst : (codes.zip answers).map Prod.fst = codes := List.map_fst_zip (by omega)
  have hsnd : (codes.zip answers).map Prod.snd = answers := List.map_snd_zip (by omega)
  have hsplits := noteAll_splits minimum (hfst.symm ▸ hcodes) exchange
  obtain ⟨v, hv⟩ : ∃ v, noteAll minimum ⟨exchange, [], []⟩ (codes.zip answers) = v := ⟨_, rfl⟩
  have hexchange : v.exchange = exchange := hv ▸ noteAll_exchange _ _
  rw [hv] at hsplits
  have hempty : v.admitted = [] := by
    refine List.eq_nil_iff_forall_not_mem.2 fun ⟨code, bars⟩ hmem => ?_
    obtain ⟨hasked, henough⟩ := (hsplits.admitted code bars).1 hmem
    exact hnone code bars hasked henough
  -- with nothing admitted the skips are as many as the codes, so they are all of them
  have hall : v.skipped.map (·.code) = codes := by
    have hperm := hsplits.perm
    rw [Validation.codes, hempty, List.map_nil, List.nil_append, hfst] at hperm
    exact (hfst ▸ hsplits.skips).eq_of_length hperm.length_eq
  have hfailed : (v.skipped.all fun s => s.reason = .fetchError) = true ↔
      ∀ answer ∈ answers, FetchFailed answer := by
    simp only [List.all_eq_true, decide_eq_true_eq]
    rw [hsplits.failed_iff hempty, ← List.forall_mem_map (f := Prod.snd), hsnd]
  refine ⟨v.skipped, hall, fun skip hskip => (hsplits.skipped skip).1 hskip, ?_⟩
  simp only [verdict, hv, Validation.settle, hempty, List.isEmpty_nil, Bool.not_true,
    Bool.false_eq_true, if_false, hexchange]
  by_cases h : (v.skipped.all fun s => s.reason = .fetchError) = true
  · exact .inl ⟨hfailed.1 h, by rw [if_pos h]⟩
  · exact .inr ⟨fun hf => h (hfailed.2 hf), by rw [if_neg h]⟩

end Request

-- A loop that only puts answers into a state asks for all of them first.
theorem forIn_ask {m : Type → Type} [Monad m] [LawfulMonad m] {β γ σ : Type} (xs : List β)
    (ask : β → m γ) (put : σ → β → γ → σ) (state : σ) :
    (forIn xs state fun x s => (fun y => ForInStep.yield (put s x y)) <$> ask x) =
      (fun ys => (xs.zip ys).foldl (fun s xy => put s xy.1 xy.2) state) <$> xs.mapM ask := by
  induction xs generalizing state with
  | nil => simp
  | cons x xs ih =>
    simp only [List.forIn_cons, List.mapM_cons, bind_map_left, ih, map_bind, bind_pure_comp,
      Functor.map_map, List.zip_cons_cons, List.foldl_cons]

-- A request for some instruments asks for each of them once and in order, and what becomes of it
-- depends on the answers only.
theorem validate_eq {m : Type → Type} [Monad m] [LawfulMonad m] (source : BarSource α m)
    {codes : List String} (hcodes : codes ≠ []) (exchange : String) (first last : Date)
    (minimum : Int) :
    validate source codes exchange (some first) (some last) minimum =
      verdict exchange minimum codes <$>
        codes.mapM fun code => source code exchange first last := by
  have hsome : codes.isEmpty = false := List.isEmpty_eq_false_iff.2 hcodes
  simp only [validate, hsome, Bool.false_eq_true, if_false, bind_pure_comp, forIn_ask,
    Functor.map_map]
  rfl

section Run

variable [Amount α] {settings : Settings α} {s : Strategy α}

theorem instrument_of_ofBars {exchange : String} {strategy : Option (Strategy α)}
    {specs : List (Indicator.Spec α)} {i : Instrument α}
    (h : Instrument.ofBars code exchange bars strategy specs = .ok i) :
    i.code = code ∧ i.exchange = exchange ∧ i.bars = sortBars bars := by
  obtain ⟨table, -, h⟩ := except_bind_eq_ok.1 h
  cases h
  exact ⟨rfl, rfl, rfl⟩

-- One instrument is built for each that is admitted, in order.
theorem instruments_of_admitted {exchange : String} {admitted : List (String × List (Bar α))}
    {instruments : List (Instrument α)}
    (h : (admitted.mapM fun x => Instrument.ofBars x.1 exchange x.2 (some s) []) =
      .ok instruments) :
    (instruments.map fun i => (i.code, i.exchange, i.bars)) =
      admitted.map fun x => (x.1, exchange, sortBars x.2) := by
  induction admitted generalizing instruments with
  | nil =>
    cases h
    rfl
  | cons x admitted ih =>
    rw [List.mapM_cons] at h
    obtain ⟨i, hi, h⟩ := except_bind_eq_ok.1 h
    obtain ⟨rest, hrest, h⟩ := except_bind_eq_ok.1 h
    cases h
    obtain ⟨hcode, hexchange, hbars⟩ := instrument_of_ofBars hi
    rw [List.map_cons, List.map_cons, ih hrest, hcode, hexchange, hbars]

theorem except_mapError_eq_ok {ε ε' β : Type} {f : ε → ε'} {r : Except ε β} {x : β} :
    r.mapError f = .ok x ↔ r = .ok x := by
  cases r <;> simp [Except.mapError]

theorem Validation.run_eq_ok_iff (v : Validation α) {result : Result α} :
    v.run settings s = .ok result ↔ ∃ instruments r,
      (v.admitted.mapM fun x => Instrument.ofBars x.1 v.exchange x.2 (some s) []) =
        .ok instruments ∧
      Engine.run settings s instruments none = .ok r ∧ result = { r with skipped := v.skipped } := by
  simp only [Validation.run, except_bind_eq_ok, except_mapError_eq_ok]
  constructor
  · rintro ⟨instruments, hinstruments, r, hr, h⟩
    cases h
    exact ⟨instruments, r, hinstruments, hr, rfl⟩
  · rintro ⟨instruments, r, hinstruments, hr, rfl⟩
    exact ⟨instruments, hinstruments, r, hr, rfl⟩

-- A run goes over what is admitted, in order, and reports what is left out.
theorem Validation.of_run (v : Validation α) {result : Result α}
    (h : v.run settings s = .ok result) :
    result.codes = v.codes ∧ result.skipped = v.skipped ∧ ∃ instruments r,
      (instruments.map fun i => (i.code, i.exchange, i.bars)) =
        (v.admitted.map fun x => (x.1, v.exchange, sortBars x.2)) ∧
      Engine.run settings s instruments none = .ok r ∧ result = { r with skipped := v.skipped } := by
  obtain ⟨instruments, r, hinstruments, hr, rfl⟩ := v.run_eq_ok_iff.1 h
  have hbuilt := instruments_of_admitted hinstruments
  refine ⟨?_, rfl, instruments, r, hbuilt, hr, rfl⟩
  obtain ⟨-, p, -, rfl⟩ := (Engine.run_eq_ok_iff _ _ _).1 hr
  simpa [List.map_map, Function.comp_def, codes] using congrArg (List.map Prod.fst) hbuilt

-- What becomes of a run over a universe when the answers are known.
def runVerdict (settings : Settings α) (s : Strategy α) (exchange : String) (codes : List String)
    (answers : List (Answer α)) : Except UniverseRunError (Result α) :=
  match verdict exchange minimumBars codes answers with
  | .error e => .error (.universe e)
  | .ok v => v.run settings s

theorem runUniverse_eq {m : Type → Type} [Monad m] [LawfulMonad m] (source : BarSource α m)
    {codes : List String} (hcodes : codes ≠ []) (exchange : String) {first last : Date}
    (hfirst : settings.startDate = some first) (hlast : settings.endDate = some last) :
    runUniverse source settings s codes exchange =
      runVerdict settings s exchange codes <$>
        codes.mapM fun code => source code exchange first last := by
  rw [runUniverse, hfirst, hlast, validate_eq source hcodes, bind_map_left, ← bind_pure_comp]
  congr
  funext answers
  unfold runVerdict
  cases verdict exchange minimumBars codes answers <;> rfl

end Run

-- A request for different instruments is split into those that are admitted and those that are
-- left out, nothing lost and nothing twice, as long as the source has enough bars of one of them.
-- If it has not, the request fails, at the source if that is where every instrument failed. A run
-- goes over the admitted instruments and reports the others.
theorem request_is_split [Amount α] {m : Type → Type} [Monad m] [LawfulMonad m]
    (source : BarSource α m) {codes : List String} (hcodes : codes ≠ []) (hdistinct : codes.Nodup)
    (exchange : String) (first last : Date) (minimum : Int) :
    validate source codes exchange (some first) (some last) minimum =
        verdict exchange minimum codes <$>
          (codes.mapM fun code => source code exchange first last) ∧
      (∀ answers : List (Answer α), answers.length = codes.length →
        ((∃ code bars, (code, .ok bars) ∈ codes.zip answers ∧
            max 1 minimum ≤ (bars.length : Int)) →
          ∃ v, verdict exchange minimum codes answers = .ok v ∧ v.exchange = exchange ∧
            (v.codes ++ v.skipped.map (·.code)).Perm codes ∧
            v.codes.Sublist codes ∧ (v.skipped.map (·.code)).Sublist codes ∧
            (∀ code bars, (code, bars) ∈ v.admitted ↔
              (code, .ok bars) ∈ codes.zip answers ∧ max 1 minimum ≤ (bars.length : Int)) ∧
            ∀ skip, skip ∈ v.skipped ↔ ∃ answer, (skip.code, answer) ∈ codes.zip answers ∧
              LeftOut minimum skip.code answer skip) ∧
        ((¬ ∃ code bars, (code, .ok bars) ∈ codes.zip answers ∧
            max 1 minimum ≤ (bars.length : Int)) →
          ∃ skipped : List Skip, skipped.map (·.code) = codes ∧
            (∀ skip ∈ skipped, ∃ answer, (skip.code, answer) ∈ codes.zip answers ∧
              LeftOut minimum skip.code answer skip) ∧
            ((∀ answer ∈ answers, FetchFailed answer) ∧
                verdict exchange minimum codes answers =
                  .error (.allFailed codes.length exchange skipped) ∨
              ¬ (∀ answer ∈ answers, FetchFailed answer) ∧
                verdict exchange minimum codes answers =
                  .error (.allInsufficient exchange minimum skipped)))) ∧
      ∀ (settings : Settings α) (s : Strategy α), settings.startDate = some first →
        settings.endDate = some last →
        runUniverse source settings s codes exchange =
            runVerdict settings s exchange codes <$>
              (codes.mapM fun code => source code exchange first last) ∧
          ∀ answers result, runVerdict settings s exchange codes answers = .ok result → ∃ v,
            verdict exchange minimumBars codes answers = .ok v ∧ result.codes = v.codes ∧
            result.skipped = v.skipped ∧ ∃ instruments r,
              (instruments.map fun i => (i.code, i.exchange, i.bars)) =
                (v.admitted.map fun x => (x.1, v.exchange, sortBars x.2)) ∧
              Engine.run settings s instruments none = .ok r ∧
              result = { r with skipped := v.skipped } := by
  refine ⟨validate_eq source hcodes exchange first last minimum, fun answers hlength => ⟨?_, ?_⟩,
    fun settings s hfirst hlast => ⟨runUniverse_eq source hcodes exchange hfirst hlast, ?_⟩⟩
  · rintro ⟨code, bars, hmem, henough⟩
    obtain ⟨v, hv, hexchange, hsplits⟩ :=
      verdict_of_enough hdistinct hlength exchange hmem henough
    have hfst : (codes.zip answers).map Prod.fst = codes := List.map_fst_zip (by omega)
    refine ⟨v, hv, hexchange, ?_, ?_, ?_, hsplits.admitted, hsplits.skipped⟩
    · exact hfst ▸ hsplits.perm
    · exact hfst ▸ hsplits.codes
    · exact hfst ▸ hsplits.skips
  · intro hnone
    exact verdict_of_none hdistinct hlength exchange
      fun code bars hmem henough => hnone ⟨code, bars, hmem, henough⟩
  · intro answers result hresult
    unfold runVerdict at hresult
    cases hverdict : verdict exchange minimumBars codes answers with
    | error e =>
      rw [hverdict] at hresult
      cases hresult
    | ok v =>
      rw [hverdict] at hresult
      exact ⟨v, rfl, v.of_run hresult⟩

def february (day : Nat) (h : 1 ≤ day ∧ day ≤ 28) : Date :=
  ⟨2022, 2, day, by decide, by decide, h⟩

def flatBar (day : Nat) (h : 1 ≤ day ∧ day ≤ 28) : Bar Float :=
  ⟨february day h, 10.0, 10.0, 10.0, 10.0, 0.0⟩

-- Two bars of one instrument and one bar of another, nothing of two others, and a failure.
def unevenSource : BarSource Float Id := fun code exchange _ _ =>
  if code = "AAA" then .ok [flatBar 2 (by decide), flatBar 3 (by decide)]
  else if code = "BBB" then .ok [flatBar 2 (by decide)]
  else if code = "CCC" then .ok []
  else if code = "DDD" then .error (.noData code exchange)
  else .error (.unreadable "disk")

def unevenCodes : List String := ["EEE", "DDD", "AAA", "CCC", "BBB"]

theorem request_is_split_uneven :
    unevenCodes ≠ [] ∧ unevenCodes.Nodup ∧
      ∃ v, validate unevenSource unevenCodes "ASX" (some (february 2 (by decide)))
          (some (february 5 (by decide))) 2 = .ok v ∧
        (v.codes ++ v.skipped.map (·.code)).Perm unevenCodes ∧ v.codes = ["AAA"] ∧
        v.skipped = [⟨"EEE", .fetchError, 0, "disk", 30⟩, ⟨"DDD", .noData, 0, "", 30⟩,
          ⟨"CCC", .noData, 0, "", 30⟩, ⟨"BBB", .insufficientBars, 1, "", 2⟩] := by
  refine ⟨by decide, by decide, ?_⟩
  obtain ⟨hvalidate, hanswers, -⟩ := request_is_split unevenSource
    (show unevenCodes ≠ [] by decide) (by decide) "ASX" (february 2 (by decide))
    (february 5 (by decide)) 2
  have henough : ∃ code bars, (code, .ok bars) ∈ unevenCodes.zip (unevenCodes.map fun code =>
      unevenSource code "ASX" (february 2 (by decide)) (february 5 (by decide))) ∧
      max 1 2 ≤ (bars.length : Int) :=
    ⟨"AAA", [flatBar 2 (by decide), flatBar 3 (by decide)], .tail _ (.tail _ (.head _)), by decide⟩
  obtain ⟨v, hv, -, hperm, -⟩ := (hanswers _ rfl).1 henough
  refine ⟨v, hvalidate.trans hv, hperm, ?_⟩
  cases hv
  exact ⟨rfl, rfl⟩

end BarReplay.Universe
