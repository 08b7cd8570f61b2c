import BarReplay.Proofs.Replay.Curve

namespace BarReplay

variable {α β γ : Type}

namespace Portfolio

open Portfolio.Action

-- A step that fails with failures of a kind only.
def Action.Fails (F : Failure → Prop) (a : Action α β) : Prop :=
  ∀ p e q, on a p = (.error e, q) → F e

namespace Action.Fails

variable {F : Failure → Prop}

theorem pure (x : β) : Fails F (Pure.pure x : Action α β) := by
  intro p e q h
  cases h

theorem get_bind {f : Portfolio α → Action α β} (hf : ∀ p, Fails F (f p)) :
    Fails F (get >>= f) := by
  intro p e q h
  rw [on_get_bind] at h
  exact hf p p e q h

theorem bind {a : Action α β} {f : β → Action α γ} (ha : Fails F a) (hf : ∀ x, Fails F (f x)) :
    Fails F (a >>= f) := by
  intro p e q h
  obtain h | ⟨x, r, -, h⟩ := on_bind_eq_error.1 h
  · exact ha p e q h
  · exact hf x r e q h

theorem forIn (xs : List γ) (init : β) (f : γ → β → Action α (ForInStep β))
    (hf : ∀ x ∈ xs, ∀ b, Fails F (f x b)) : Fails F (forIn xs init f) :=
  forIn_of_bind (fun _ => Fails F) .pure .bind xs init f hf

end Action.Fails

-- Failures that come from numbers, and not from the state of the portfolio.
def Failure.IsArithmetic (e : Failure) : Prop :=
  ∃ fault, e = .arithmetic fault

variable [Amount α]

-- An exit takes out a position that it has found.
theorem exit_fails (code : String) (price : α) (day : Date) (e : Execution α) :
    Fails Failure.IsArithmetic (exit code price day e) := by
  intro p f q h
  obtain ⟨-, fault, -, -, rfl, -⟩ := exit_error h
  exact ⟨fault, rfl⟩

-- An order for what is held is rejected, so an entry never adds a second position.
theorem enter_fails (side : Side) (code exchange : String) (price : α) (day : Date)
    (s : Strategy α) (e : Execution α) :
    Fails Failure.IsArithmetic (enter side code exchange price day s e) := by
  intro p f q h
  obtain ⟨fault, -, rfl, -⟩ := enter_error h
  exact ⟨fault, rfl⟩

theorem sweep_fails {F : Failure → Prop} {prices : PriceMap α} {day : Date} {e : Execution α}
    (hexit : ∀ code price, Fails F (exit code price day e)) : Fails F (sweep prices day e) :=
  .get_bind fun _ => .bind (.forIn _ _ _ fun due _ _ => .bind (hexit due.1 due.2) fun _ => .pure _)
    fun _ => .pure _

end Portfolio

namespace Engine

open Portfolio Action

variable [Amount α] {settings : Settings α} {s : Strategy α} {instruments : List (Instrument α)}
  {day : Date} {p q : Portfolio α} {F : Failure → Prop}

-- The broker's calls and the valuation of a run fail with failures of a kind only.
structure StepsFail (F : Failure → Prop) (settings : Settings α) (s : Strategy α) : Prop where
  exit : ∀ code price day, Fails F (exit code price day settings.execution)
  enter : ∀ side code exchange price day,
    Fails F (enter side code exchange price day s settings.execution)
  equity : ∀ (p : Portfolio α) quotes fault, p.equity quotes = .error fault →
    F (.arithmetic fault)

theorem StepsFail.arithmetic (settings : Settings α) (s : Strategy α) :
    StepsFail Failure.IsArithmetic settings s where
  exit code price day := exit_fails code price day _
  enter side code exchange price day := enter_fails side code exchange price day s _
  equity _ _ fault _ := ⟨fault, rfl⟩

namespace StepsFail

variable (hs : StepsFail F settings s)

include hs

theorem closeIfDue (i : Instrument α) (index : Nat) (close : α) :
    Fails F (closeIfDue settings s day i index close) := by
  refine .get_bind fun p => ?_
  split
  · split
    · exact .bind (hs.exit _ _ _) fun _ => .pure _
    · exact .pure _
  · exact .pure _

theorem openings (i : Instrument α) (index : Nat) (close : α) :
    Fails F (openings settings s day i index close) := by
  refine .get_bind fun p => ?_
  split
  · split
    · exact .bind (hs.enter _ _ _ _ _) fun _ => .pure _
    · exact .pure _
  · exact .pure _

theorem visits (trading : List (Instrument α × Nat × α)) :
    Fails F (performAll settings s (visits trading day)) := by
  induction trading with
  | nil => exact .pure _
  | cons x trading ih =>
    exact .bind (.bind (hs.closeIfDue _ _ _) fun _ => hs.openings _ _ _)
      fun _ => .bind ih fun _ => .pure _

theorem record {quotes : PriceMap α} {e : Failure}
    (h : on ((Stage.record quotes day).perform settings s) p = (.error e, q)) :
    F e ∨ ∃ last, p.curve.getLast? = some last ∧ day ≤ last.date ∧
      e = .dateOrder day last.date := by
  rw [Stage.perform, on_get_bind] at h
  cases hequity : p.equity quotes with
  | error fault =>
    rw [hequity, on_calculated_bind] at h
    cases h
    exact .inl (hs.equity p quotes fault hequity)
  | ok equity =>
    rw [hequity, on_calculated_bind] at h
    have h := on_bind_pure_eq_error.1 h
    rw [record_on] at h
    cases hlast : p.curve.getLast? with
    | none =>
      rw [hlast] at h
      cases h
    | some last =>
      simp only [hlast] at h
      split at h
      · rename_i hday
        cases h
        exact .inr ⟨last, rfl, hday, rfl⟩
      · cases h

-- If nothing else fails on a day, its record does, because the day is not later than the curve.
theorem replayDay {e : Failure} (h : on (replayDay settings s instruments day) p = (.error e, q)) :
    F e ∨ ∃ last, p.curve.getLast? = some last ∧ day ≤ last.date ∧
      e = .dateOrder day last.date := by
  rw [replayDay_eq_performAll] at h
  have h := on_bind_pure_eq_error.1 h
  obtain h | ⟨_, a, hsweep, h⟩ := performAll_cons_eq_error.1 h
  · have hfails : Fails F
        (Portfolio.sweep (prices (today instruments day)) day settings.execution) :=
      sweep_fails fun code price => hs.exit code price day
    exact .inl (Fails.bind hfails (fun _ => .pure _) _ _ _ h)
  obtain h | ⟨_, b, hvisits, h⟩ := performAll_append_eq_error.1 h
  · exact .inl (hs.visits _ _ _ _ h)
  rw [performAll_singleton] at h
  have hcurve : b.curve = p.curve :=
    (visits_curve_eq (fun _ hx => hx) hvisits).trans (clears_curve_eq (sweep_changes hsweep).2)
  exact hcurve ▸ hs.record h

theorem replay {days : List Date} {e : Failure}
    (h : on (replay settings s instruments days) p = (.error e, q)) :
    F e ∨ (∃ day last, e = .dateOrder day last) ∧
      ¬ (days.Pairwise (· < ·) ∧
        ∀ last, p.curve.getLast? = some last → ∀ day ∈ days, last.date < day) := by
  induction days generalizing p with
  | nil => cases h
  | cons day days ih =>
    rw [replay_cons] at h
    obtain h | ⟨_, r, hday, h⟩ := on_bind_eq_error.1 h
    · obtain h | ⟨last, hlast, hle, rfl⟩ := hs.replayDay h
      · exact .inl h
      · refine .inr ⟨⟨day, last.date, rfl⟩, fun hin => ?_⟩
        exact not_le.2 (hin.2 last hlast day List.mem_cons_self) hle
    · obtain ⟨a, b, fills, equity, -, -, -, -, -, rfl⟩ := replayDay_ok hday
      refine (ih h).imp_right fun ⟨hform, hnot⟩ => ⟨hform, fun hin => hnot ?_⟩
      obtain ⟨hfirst, hrest⟩ := List.pairwise_cons.1 hin.1
      refine ⟨hrest, fun last hlast => ?_⟩
      obtain rfl : (⟨day, equity⟩ : EquityPoint α) = last := by simpa using hlast
      exact hfirst

end StepsFail

-- The errors of a run that are neither of its input nor of its numbers: a rule of the portfolio
-- has been broken.
def Error.IsViolation : Error → Prop
  | .duplicateCodes _ => False
  | .step e => ¬ e.IsArithmetic

omit [Amount α] in
theorem curve_new (capital : α) : (Portfolio.new capital).curve = [] := rfl

-- A run fails because codes are repeated or because its replay does.
theorem run_eq_error_iff {days : Option (List Date)} {e : Error} :
    run settings s instruments days = .error e ↔
      ¬ (instruments.map (·.code)).Nodup ∧ e = .duplicateCodes (instruments.map (·.code)) ∨
      (instruments.map (·.code)).Nodup ∧ ∃ f p,
        on (replay settings s instruments (days.getD (calendar instruments)))
          (Portfolio.new settings.initialCapital) = (.error f, p) ∧ e = .step f := by
  unfold run
  by_cases hcodes : (instruments.map (·.code)).Nodup
  · simp only [hcodes, not_true_eq_false, if_false, true_and, false_and, false_or, on]
    cases ExceptT.run (replay settings s instruments (days.getD (calendar instruments)))
        (Portfolio.new settings.initialCapital) with
    | mk ending p => cases ending <;> simp [eq_comm]
  · simp [hcodes, eq_comm]

-- A run breaks no rule of the portfolio on a calendar that increases.
theorem not_violation_of_increasing (days : Option (List Date)) {e : Error}
    (hdays : (days.getD (calendar instruments)).Pairwise (· < ·))
    (h : run settings s instruments days = .error e) : ¬ e.IsViolation := by
  obtain ⟨-, rfl⟩ | ⟨-, f, p, hreplay, rfl⟩ := run_eq_error_iff.1 h
  · exact id
  · obtain hf | ⟨-, hnot⟩ := (StepsFail.arithmetic settings s).replay hreplay
    · exact not_not_intro hf
    · exact absurd ⟨hdays, by simp [curve_new]⟩ hnot

-- A run that returns has one point for each day of its calendar, which increases.
theorem dates_of_run {days : Option (List Date)} {r : Result α}
    (h : run settings s instruments days = .ok r) :
    r.portfolio.curve.map (·.date) = days.getD (calendar instruments) ∧
      (days.getD (calendar instruments)).Pairwise (· < ·) := by
  obtain ⟨-, p, hp, rfl⟩ := (run_eq_ok_iff _ _ _).1 h
  obtain ⟨hdates, hincreasing, -⟩ := replay_dates hp
  exact ⟨hdates, hincreasing⟩

end Engine

end BarReplay
