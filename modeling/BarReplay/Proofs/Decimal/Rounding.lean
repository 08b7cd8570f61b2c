import Mathlib.Algebra.Order.Field.Power
import Mathlib.Algebra.Order.Ring.Rat
import Mathlib.Data.Nat.Cast.Order.Field
import Mathlib.Tactic.FieldSimp
import Mathlib.Tactic.Linarith
import Mathlib.Tactic.NormNum
import Mathlib.Tactic.Ring
import BarReplay.Decimal.Binary64

namespace BarReplay.Decimal

-- The whole number nearest to `v`, and the even one of two that are equally near.
structure Rounds (v : ℚ) (m : ℕ) : Prop where
  near : |v - m| ≤ 1 / 2
  even : |v - m| = 1 / 2 → m % 2 = 0

theorem Rounds.not_lt {v : ℚ} {m n : ℕ} (hm : Rounds v m) (hn : Rounds v n) : ¬ m < n := by
  intro hlt
  have hstep : (m : ℚ) + 1 ≤ n := by exact_mod_cast hlt
  have hmv := (abs_le.1 hm.near).2
  have hnv := (abs_le.1 hn.near).1
  -- the two are neighbours and `v` is half way between them
  have hvm : v - m = 1 / 2 := by linarith
  have hvn : v - n = -(1 / 2) := by linarith
  have hnext : n = m + 1 := by
    have : (n : ℚ) = m + 1 := by linarith
    exact_mod_cast this
  have hm2 := hm.even (by rw [hvm]; norm_num)
  have hn2 := hn.even (by rw [hvn]; norm_num)
  omega

theorem Rounds.unique {v : ℚ} {m n : ℕ} (hm : Rounds v m) (hn : Rounds v n) : m = n :=
  Nat.le_antisymm (Nat.not_lt.1 (hn.not_lt hm)) (Nat.not_lt.1 (hm.not_lt hn))

theorem rounds_divideEven (num : ℕ) {den : ℕ} (hden : 0 < den) :
    Rounds (num / den) (divideEven num den) := by
  have hpos : (0 : ℚ) < den := by exact_mod_cast hden
  obtain ⟨q, r, hq, hr, hnum⟩ : ∃ q r, q = num / den ∧ r = num % den ∧ den * q + r = num :=
    ⟨_, _, rfl, rfl, Nat.div_add_mod num den⟩
  have hlt : r < den := hr ▸ Nat.mod_lt num hden
  have hv : (num : ℚ) / den = q + r / den := by
    rw [← hnum]
    push_cast
    field_simp
  have hnonneg : (0 : ℚ) ≤ r / den := by positivity
  -- the remainder is compared with a half
  have hbelow : 2 * r < den → (r : ℚ) / den < 1 / 2 := fun h => by
    rw [div_lt_div_iff₀ hpos two_pos]
    exact_mod_cast (by omega : r * 2 < 1 * den)
  have habove : den < 2 * r → 1 / 2 < (r : ℚ) / den := fun h => by
    rw [div_lt_div_iff₀ two_pos hpos]
    exact_mod_cast (by omega : 1 * den < r * 2)
  have hone : (r : ℚ) / den < 1 := (div_lt_one hpos).2 (by exact_mod_cast hlt)
  rw [divideEven, hv, ← hq, ← hr]
  split
  · rename_i h
    have habs : |(q : ℚ) + r / den - q| = r / den := by
      rw [add_sub_cancel_left, abs_of_nonneg hnonneg]
    have := hbelow h
    exact ⟨by linarith, fun h => by linarith⟩
  split
  · rename_i h
    have habs : |(q : ℚ) + r / den - (q + 1 : ℕ)| = 1 - r / den := by
      rw [abs_of_nonpos] <;> push_cast <;> linarith
    have := habove h
    exact ⟨by linarith, fun h => by linarith⟩
  · have hhalf : (r : ℚ) / den = 1 / 2 := by
      rw [div_eq_div_iff hpos.ne' two_ne_zero]
      exact_mod_cast (by omega : r * 2 = 1 * den)
    rw [hhalf]
    split
    · rename_i heven
      exact ⟨by norm_num, fun _ => heven⟩
    · rename_i hodd
      refine ⟨by push_cast; rw [abs_of_nonpos] <;> linarith, fun _ => by omega⟩

-- `scale` is exact.

theorem scale_pos {base : ℕ} (hbase : 0 < base) (n : ℕ) (e : ℤ) : 0 < (scale n base e).2 := by
  unfold scale
  split
  · exact Nat.pow_pos hbase
  · exact Nat.one_pos

theorem scale_div (n base : ℕ) (e : ℤ) :
    ((scale n base e).1 : ℚ) / (scale n base e).2 = n * (base : ℚ) ^ e := by
  unfold scale
  split
  · obtain ⟨k, rfl⟩ : ∃ k : ℕ, e = -k := ⟨e.natAbs, by omega⟩
    simp [zpow_neg, Nat.pow_eq, div_eq_mul_inv]
  · obtain ⟨k, rfl⟩ : ∃ k : ℕ, e = k := ⟨e.natAbs, by omega⟩
    simp [Nat.pow_eq]

end BarReplay.Decimal
