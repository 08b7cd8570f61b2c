import BarReplay.Proofs.Decimal.Rounding

namespace BarReplay.Decimal.Binary64

theorem two_zpow_pos (e : ℤ) : (0 : ℚ) < 2 ^ e :=
  zpow_pos two_pos e

theorem two_zpow_succ (e : ℤ) : (2 : ℚ) ^ (e + 1) = 2 * 2 ^ e := by
  rw [zpow_add_one₀ two_ne_zero, mul_comm]

-- A number lies between two powers that the binary logarithm gives.
theorem zpow_log2_le {n : ℕ} (hn : n ≠ 0) : (2 : ℚ) ^ (Nat.log2 n : ℤ) ≤ n := by
  rw [zpow_natCast]
  exact_mod_cast Nat.log2_self_le hn

theorem lt_zpow_log2 (n : ℕ) : (n : ℚ) < 2 ^ ((Nat.log2 n : ℤ) + 1) := by
  have h : n < 2 ^ (Nat.log2 n + 1) := Nat.lt_log2_self
  calc (n : ℚ) < (2 ^ (Nat.log2 n + 1) : ℕ) := by exact_mod_cast h
    _ = 2 ^ ((Nat.log2 n : ℤ) + 1) := by
      push_cast
      rw [← zpow_natCast]
      push_cast
      rfl

-- The first guess of the exponent is at most one too large.
theorem guess_spec {num den : ℕ} (hnum : num ≠ 0) (hden : den ≠ 0) :
    (2 : ℚ) ^ 52 * 2 ^ ((Nat.log2 num : ℤ) - Nat.log2 den - 52 - 1) ≤ num / den ∧
      (num : ℚ) / den < 2 ^ 53 * 2 ^ ((Nat.log2 num : ℤ) - Nat.log2 den - 52) := by
  have hpos : (0 : ℚ) < den := by positivity
  constructor
  · rw [le_div_iff₀ hpos]
    calc (2 : ℚ) ^ 52 * 2 ^ ((Nat.log2 num : ℤ) - Nat.log2 den - 52 - 1) * den
        ≤ 2 ^ 52 * 2 ^ ((Nat.log2 num : ℤ) - Nat.log2 den - 52 - 1) * 2 ^ ((Nat.log2 den : ℤ) + 1) := by
          gcongr
          exact (lt_zpow_log2 den).le
      _ = 2 ^ (Nat.log2 num : ℤ) := by
          rw [← zpow_natCast, ← zpow_add₀ two_ne_zero, ← zpow_add₀ two_ne_zero]
          congr 1
          push_cast
          ring
      _ ≤ num := zpow_log2_le hnum
  · rw [div_lt_iff₀ hpos]
    calc (num : ℚ) < 2 ^ ((Nat.log2 num : ℤ) + 1) := lt_zpow_log2 num
      _ = 2 ^ 53 * 2 ^ ((Nat.log2 num : ℤ) - Nat.log2 den - 52) * 2 ^ (Nat.log2 den : ℤ) := by
          rw [← zpow_natCast, ← zpow_add₀ two_ne_zero, ← zpow_add₀ two_ne_zero]
          congr 1
          push_cast
          ring
      _ ≤ 2 ^ 53 * 2 ^ ((Nat.log2 num : ℤ) - Nat.log2 den - 52) * den := by
          gcongr
          exact zpow_log2_le hden

theorem ratio_scale {num den : ℕ} (hden : den ≠ 0) (e : ℤ) :
    ((num * (scale den 2 e).2 : ℕ) : ℚ) / (scale den 2 e).1 = num / den / 2 ^ e := by
  have hden' : (den : ℚ) ≠ 0 := by exact_mod_cast hden
  have hsecond : ((scale den 2 e).2 : ℚ) ≠ 0 := by
    exact_mod_cast (scale_pos two_pos den e).ne'
  have hscale : ((scale den 2 e).1 : ℚ) = den * 2 ^ e * (scale den 2 e).2 := by
    rw [← div_eq_iff hsecond, scale_div]
    norm_num
  have hpow := (two_zpow_pos e).ne'
  rw [hscale]
  push_cast
  field_simp

theorem scale_fst_pos {den : ℕ} (hden : den ≠ 0) (e : ℤ) : 0 < (scale den 2 e).1 := by
  unfold scale
  split
  · exact Nat.pos_of_ne_zero hden
  · exact Nat.mul_pos (Nat.pos_of_ne_zero hden) (Nat.pow_pos two_pos)

theorem rounds_multiple (num : ℕ) {den : ℕ} (hden : den ≠ 0) (e : ℤ) :
    Rounds (num / den / 2 ^ e) (multiple num den e) := by
  rw [← ratio_scale hden]
  exact rounds_divideEven _ (scale_fst_pos hden e)

theorem leadingExponent_eq (num den : ℕ) :
    leadingExponent num den =
      if num * (scale den 2 ((Nat.log2 num : ℤ) - Nat.log2 den - 52)).2 <
          (scale den 2 ((Nat.log2 num : ℤ) - Nat.log2 den - 52)).1 * Nat.pow 2 52 then
        (Nat.log2 num : ℤ) - Nat.log2 den - 52 - 1
      else (Nat.log2 num : ℤ) - Nat.log2 den - 52 := rfl

theorem leadingExponent_spec {num den : ℕ} (hnum : num ≠ 0) (hden : den ≠ 0) :
    (2 : ℚ) ^ 52 * 2 ^ leadingExponent num den ≤ num / den ∧
      (num : ℚ) / den < 2 ^ 53 * 2 ^ leadingExponent num den := by
  obtain ⟨hlow, hhigh⟩ := guess_spec hnum hden
  have hdef := leadingExponent_eq num den
  generalize (Nat.log2 num : ℤ) - Nat.log2 den - 52 = guess at hlow hhigh hdef
  rw [hdef]
  -- whether the guess is too large
  have hcompare : num * (scale den 2 guess).2 < (scale den 2 guess).1 * Nat.pow 2 52 ↔
      (num : ℚ) / den < 2 ^ 52 * 2 ^ guess := by
    have hpos : (0 : ℚ) < (scale den 2 guess).1 := by exact_mod_cast scale_fst_pos hden guess
    rw [← div_lt_iff₀ (two_zpow_pos guess), ← ratio_scale hden, div_lt_iff₀ hpos, Nat.pow_eq,
      mul_comm (scale den 2 guess).1]
    exact_mod_cast Iff.rfl
  split
  · rename_i h
    refine ⟨hlow, ?_⟩
    calc (num : ℚ) / den < 2 ^ 52 * 2 ^ guess := hcompare.1 h
      _ = 2 ^ 52 * 2 ^ (guess - 1 + 1) := by rw [sub_add_cancel]
      _ = 2 ^ 53 * 2 ^ (guess - 1) := by
        rw [two_zpow_succ]
        ring
  · rename_i h
    exact ⟨not_lt.1 (mt hcompare.2 h), hhigh⟩

end BarReplay.Decimal.Binary64
