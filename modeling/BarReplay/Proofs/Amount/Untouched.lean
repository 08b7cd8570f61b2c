import BarReplay.Amount.ExactSum

namespace BarReplay.Amount

-- Arithmetic with quotients, squares and powers that somebody else computes.
@[reducible] def withOperations {α : Type} (A : Amount α) (div : α → α → α)
    (square : α → Except Fault α) (power : α → α → Except Fault α) : Amount α :=
  { A with div := div, square := square, power := power }

variable {α : Type} [A : Amount α] (div : α → α → α) (square : α → Except Fault α)
  (power : α → α → Except Fault α)

-- They take no part in sums.

theorem absorb_withOperations (x : α) (parts : List α) :
    @ExactSum.absorb α (A.withOperations div square power) x parts = ExactSum.absorb x parts := by
  induction parts generalizing x with
  | nil => rfl
  | cons y parts ih =>
    simp only [ExactSum.absorb, ih]
    rfl

theorem settle_withOperations (hi : α) (rest : List α) :
    @ExactSum.settle α (A.withOperations div square power) hi rest = ExactSum.settle hi rest := by
  induction rest generalizing hi with
  | nil => rfl
  | cons y rest ih =>
    simp only [ExactSum.settle, ih]
    rfl

theorem exactSum_withOperations (xs : List α) :
    @exactSum α (A.withOperations div square power) xs = exactSum xs := by
  have hadd : @ExactSum.State.add α (A.withOperations div square power) = ExactSum.State.add := by
    funext s x
    simp only [ExactSum.State.add, absorb_withOperations]
    rfl
  have htotal (s : ExactSum.State α) :
      @ExactSum.State.total α (A.withOperations div square power) s = s.total := by
    simp only [ExactSum.State.total, settle_withOperations]
    rfl
  simp only [exactSum, hadd, htotal]
  rfl

end BarReplay.Amount
