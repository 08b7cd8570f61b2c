import BarReplay.Proofs.Replay.Changes

namespace BarReplay.Engine

open Portfolio Action

variable {α : Type} [Amount α] {settings : Settings α} {s : Strategy α}
  {instruments : List (Instrument α)} {day : Date} {p q : Portfolio α}

theorem Closes.curve_eq {e : Execution α} {code : String}
    (h : Closes e instruments day code p q) : q.curve = p.curve := by
  cases h
  rfl

theorem clears_curve_eq {e : Execution α} (h : Clears e instruments day p q) :
    q.curve = p.curve := by
  induction h with
  | refl => rfl
  | tail _ hclose ih => exact hclose.choose_spec.curve_eq.trans ih

theorem Opens.curve_eq {i : Instrument α} {pos : Position α}
    (h : Opens settings s instruments day i p pos q) : q.curve = p.curve := by
  cases h
  rfl

theorem visits_curve_eq {trading : List (Instrument α × Nat × α)} {fills : List (Position α)}
    (htrading : ∀ x ∈ trading, x ∈ today instruments day)
    (h : on (performAll settings s (visits trading day)) p = (.ok fills, q)) :
    q.curve = p.curve :=
  visits_invariant (I := fun _ r => r.curve = p.curve)
    (fun hr hclose => hclose.curve_eq.trans hr) (fun hr hopen => hopen.curve_eq.trans hr)
    (fun hr => hr) htrading rfl h

-- A day that ends well closes what is due, visits its instruments, and then puts the equity
-- behind the curve, under a date that is later than all others.
theorem replayDay_ok (h : on (replayDay settings s instruments day) p = (.ok (), q)) :
    ∃ a b fills equity,
      Clears settings.execution instruments day p a ∧
      on (performAll settings s (visits (today instruments day) day)) a = (.ok fills, b) ∧
      b.curve = p.curve ∧ b.equity (prices (today instruments day)) = .ok equity ∧
      (∀ last, p.curve.getLast? = some last → last.date < day) ∧
      q = { b with curve := b.curve ++ [EquityPoint.mk day equity] } := by
  rw [replayDay_eq_performAll] at h
  obtain ⟨_, h, -⟩ := on_bind_pure_eq_ok.1 h
  obtain ⟨_, _, a, hsweep, h, -⟩ := performAll_cons_eq_ok.1 h
  obtain ⟨fills, _, b, hvisits, h, -⟩ := performAll_append_eq_ok.1 h
  rw [performAll_singleton] at h
  obtain ⟨-, hclears⟩ := sweep_changes hsweep
  obtain ⟨-, equity, hequity, hlater, rfl⟩ := record_changes h
  have hb : b.curve = p.curve :=
    (visits_curve_eq (fun _ hx => hx) hvisits).trans (clears_curve_eq hclears)
  exact ⟨a, b, fills, equity, hclears, hvisits, hb, hequity, hb ▸ hlater, rfl⟩

-- A replay that ends well puts one point for each day behind the curve, in increasing order.
theorem replay_dates {days : List Date}
    (h : on (replay settings s instruments days) p = (.ok (), q)) :
    q.curve.map (·.date) = p.curve.map (·.date) ++ days ∧ days.Pairwise (· < ·) ∧
      ∀ last, p.curve.getLast? = some last → ∀ day ∈ days, last.date < day := by
  induction days generalizing p with
  | nil =>
    cases h
    simp
  | cons day days ih =>
    rw [replay_cons] at h
    obtain ⟨_, r, hday, h⟩ := on_bind_eq_ok.1 h
    obtain ⟨a, b, fills, equity, -, -, hcurve, -, hlater, rfl⟩ := replayDay_ok hday
    obtain ⟨hdates, hincreasing, hlast⟩ := ih h
    have hnext := hlast ⟨day, equity⟩ (by simp)
    refine ⟨by simp [hdates, hcurve], List.pairwise_cons.2 ⟨hnext, hincreasing⟩, ?_⟩
    intro last hl later hmem
    cases List.mem_cons.1 hmem with
    | inl heq => exact heq ▸ hlater last hl
    | inr hmem => exact lt_trans (hlater last hl) (hnext later hmem)

end BarReplay.Engine
