import Mathlib.Algebra.BigOperators.Group.List.Basic
import Mathlib.Algebra.Field.Defs
import Mathlib.Algebra.Order.Floor.Defs
import BarReplay.Amount.ExactSum
import BarReplay.Proofs.Amount.Exact
import BarReplay.Proofs.Except

namespace BarReplay.Amount

variable {K : Type} [Field K] [LinearOrder K] [FloorRing K] [Roots K]

theorem same_iff {x y : K} : same x y = true ↔ x = y := by
  simp only [same, Bool.and_eq_true, decide_eq_true_eq]
  exact le_antisymm_iff.symm

theorem sum_eq (xs : List K) : Amount.sum xs = xs.sum :=
  List.sum_eq_foldl.symm

namespace ExactSum

-- Nothing is left over when an exact sum of two is split,
theorem same_leftover (x y : K) : same (y - (x + y - x)) 0 = true :=
  same_iff.2 (by rw [add_sub_cancel_left, sub_self])

-- so there is never more than one part.
theorem absorb_eq (x : K) (parts : List K) : absorb x parts = ([], x + parts.sum) := by
  induction parts generalizing x with
  | nil => rw [absorb, List.sum_nil, add_zero]
  | cons y parts ih =>
    by_cases hswap : abs x < abs y
    · simp only [absorb, hswap, if_true, ih, same_leftover, List.sum_cons]
      rw [add_comm y x, add_assoc]
    · simp only [absorb, hswap, if_false, ih, same_leftover, List.sum_cons, if_true, add_assoc]

theorem settle_eq (hi : K) (parts : List K) : settle hi parts = hi + parts.sum := by
  induction parts generalizing hi with
  | nil => rw [settle, List.sum_nil, add_zero]
  | cons y parts ih => simp only [settle, same_leftover, if_true, ih, List.sum_cons, add_assoc]

-- The parts make up the total, and nothing special was added.
structure State.Totals (s : State K) (x : K) : Prop where
  parts : s.parts.sum = x
  special : s.special = 0

theorem State.Totals.add {s : State K} {x : K} (hs : s.Totals x) (y : K) :
    ∃ s', s.add y = .ok s' ∧ s'.Totals (x + y) := by
  unfold State.add
  simp only [absorb_eq, hs.parts, add_comm y x]
  by_cases hzero : same (x + y) 0 = true
  · exact ⟨_, if_pos hzero, (same_iff.1 hzero).symm, hs.special⟩
  · exact ⟨_, (if_neg hzero).trans (if_pos rfl), List.sum_singleton, hs.special⟩

theorem State.Totals.total {s : State K} {x : K} (hs : s.Totals x) : s.total = .ok x := by
  have hspecial : same s.special 0 = true := same_iff.2 hs.special
  rw [State.total, if_pos hspecial, ← hs.parts, ← List.sum_reverse]
  cases s.parts.reverse with
  | nil => rfl
  | cons top rest => exact congrArg Except.ok (settle_eq top rest)

theorem State.Totals.foldlM {s : State K} {x : K} (hs : s.Totals x) (ys : List K) :
    ∃ s', ys.foldlM State.add s = .ok s' ∧ s'.Totals (x + ys.sum) := by
  induction ys generalizing s x with
  | nil => exact ⟨s, rfl, by rwa [List.sum_nil, add_zero]⟩
  | cons y ys ih =>
    obtain ⟨next, hnext, htotals⟩ := hs.add y
    obtain ⟨last, hlast, htotals⟩ := ih htotals
    refine ⟨last, except_bind_eq_ok.2 ⟨next, hnext, hlast⟩, ?_⟩
    rwa [List.sum_cons, ← add_assoc]

end ExactSum

-- In exact arithmetic there is nothing to round.
theorem exactSum_eq (xs : List K) : exactSum xs = .ok xs.sum := by
  have hempty : (ExactSum.State.empty : ExactSum.State K).Totals 0 := ⟨rfl, rfl⟩
  obtain ⟨s, hs, htotals⟩ := hempty.foldlM xs
  rw [zero_add] at htotals
  exact except_bind_eq_ok.2 ⟨s, hs, htotals.total⟩

end BarReplay.Amount
