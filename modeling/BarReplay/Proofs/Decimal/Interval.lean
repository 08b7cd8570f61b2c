import BarReplay.Decimal.Shortest
import BarReplay.Proofs.Decimal.Bits
import BarReplay.Proofs.Decimal.Nearest

namespace BarReplay.Decimal

namespace Binary64

theorem binade_le {v : ℚ} {a b : ℤ} (ha : (2 : ℚ) ^ 52 * 2 ^ a ≤ v) (hb : v < 2 ^ 53 * 2 ^ b) :
    a ≤ b := by
  have h : (2 : ℚ) ^ a < 2 ^ (b + 1) := by
    rw [two_zpow_succ]
    linarith
  have := (zpow_lt_zpow_iff_right₀ one_lt_two).1 h
  omega

end Binary64

namespace Shortest

open Binary64

theorem zpow_mul_toNat {b : ℚ} (hb : b ≠ 0) (p : ℤ) : b ^ p * b ^ (-p).toNat = b ^ p.toNat := by
  rw [← zpow_natCast, ← zpow_natCast, ← zpow_add₀ hb]
  congr 1
  omega

-- Both sides of a comparison are brought to whole numbers by one factor.

theorem decimal_mul (c : ℕ) (p q : ℤ) :
    (c : ℚ) * 10 ^ p * (10 ^ (-p).toNat * 2 ^ (-q).toNat) =
      (c * Nat.pow 10 p.toNat * Nat.pow 2 (-q).toNat : ℕ) := by
  push_cast [Nat.pow_eq]
  rw [← zpow_mul_toNat (by norm_num : (10 : ℚ) ≠ 0) p]
  ring

theorem binary_mul (t : ℕ) (p q : ℤ) :
    (t : ℚ) * 2 ^ q * (10 ^ (-p).toNat * 2 ^ (-q).toNat) =
      (t * Nat.pow 2 q.toNat * Nat.pow 10 (-p).toNat : ℕ) := by
  push_cast [Nat.pow_eq]
  rw [← zpow_mul_toNat (two_ne_zero : (2 : ℚ) ≠ 0) q]
  ring

theorem decimalLe_iff {c : ℕ} {p : ℤ} {t : ℕ} {q : ℤ} :
    decimalLe c p t q = true ↔ (c : ℚ) * 10 ^ p ≤ t * 2 ^ q := by
  have hpos : (0 : ℚ) < 10 ^ (-p).toNat * 2 ^ (-q).toNat := by positivity
  rw [← mul_le_mul_iff_of_pos_right hpos, decimal_mul, binary_mul, Nat.cast_le, decimalLe,
    decide_eq_true_iff]

theorem decimalLt_iff {c : ℕ} {p : ℤ} {t : ℕ} {q : ℤ} :
    decimalLt c p t q = true ↔ (c : ℚ) * 10 ^ p < t * 2 ^ q := by
  have hpos : (0 : ℚ) < 10 ^ (-p).toNat * 2 ^ (-q).toNat := by positivity
  rw [← mul_lt_mul_iff_of_pos_right hpos, decimal_mul, binary_mul, Nat.cast_lt, decimalLt,
    decide_eq_true_iff]

-- The ends belong to a closed interval.
def Interval.Contains (i : Interval) (v : ℚ) : Prop :=
  if i.closed then (i.low : ℚ) * 2 ^ i.exponent ≤ v ∧ v ≤ i.high * 2 ^ i.exponent
  else (i.low : ℚ) * 2 ^ i.exponent < v ∧ v < i.high * 2 ^ i.exponent

theorem Interval.holds_iff {i : Interval} {c : ℕ} {p : ℤ} :
    i.holds c p = true ↔ i.Contains (c * 10 ^ p) := by
  unfold holds Contains
  split <;>
    simp only [Bool.and_eq_true, Bool.not_eq_true', ← Bool.not_eq_true, decimalLt_iff,
      decimalLe_iff, not_lt, not_le]

-- The lower end is two quarters of a unit of the last place away, or one quarter at the powers
-- of two.
theorem Interval.exists_of (m : ℕ) (e : ℤ) :
    ∃ gap : ℕ, Interval.of m e = ⟨4 * m - gap, 4 * m, 4 * m + 2, m % 2 = 0, e - 2⟩ ∧
      1 ≤ gap ∧ gap ≤ 2 ∧ (m = 2 ^ 52 → -1074 < e → gap = 1) ∧ (gap = 1 → m = 2 ^ 52) := by
  refine ⟨_, rfl, ?_, ?_, fun hm he => if_pos ⟨hm, he⟩, fun hgap => ?_⟩
  · split <;> omega
  · split <;> omega
  · split at hgap
    · rename_i h
      exact h.1
    · cases hgap

theorem cast_low {m gap : ℕ} (hm : 0 < m) (hgap : gap ≤ 2) :
    ((4 * m - gap : ℕ) : ℚ) = 4 * m - gap := by
  rw [Nat.cast_sub (by omega)]
  push_cast
  rfl

-- What the interval of a number holds is rounded to its mantissa.
theorem Interval.rounds_of_contains {m : ℕ} {e : ℤ} {v : ℚ} (hm : 0 < m)
    (h : (Interval.of m e).Contains v) :
    Rounds (v / 2 ^ e) m ∧ (m = 2 ^ 52 → -1074 < e → (m : ℚ) - 1 / 4 ≤ v / 2 ^ e) := by
  obtain ⟨gap, hgap, -, hle, hbinade, -⟩ := exists_of m e
  have hpos := two_zpow_pos (e - 2)
  have hunit : (2 : ℚ) ^ e = 4 * 2 ^ (e - 2) := by
    rw [← sub_add_cancel e 2, zpow_add₀ two_ne_zero]
    norm_num
    ring
  obtain ⟨w, hw⟩ : ∃ w, w = v / 2 ^ e := ⟨_, rfl⟩
  have hv : v = 4 * w * 2 ^ (e - 2) := by
    rw [hw, hunit]
    field_simp
  have hgap2 : (gap : ℚ) ≤ 2 := by exact_mod_cast hle
  rw [hgap, Contains, hv, cast_low hm hle] at h
  push_cast at h
  rw [← hw]
  have hquarter (hlow : 4 * (m : ℚ) - gap ≤ 4 * w) (hm : m = 2 ^ 52) (he : -1074 < e) :
      (m : ℚ) - 1 / 4 ≤ w := by
    have hone : (gap : ℚ) = 1 := by exact_mod_cast hbinade hm he
    linarith
  split at h
  · rename_i heven
    rw [mul_le_mul_iff_of_pos_right hpos, mul_le_mul_iff_of_pos_right hpos] at h
    refine ⟨⟨abs_le.2 ⟨?_, ?_⟩, fun _ => of_decide_eq_true heven⟩, hquarter h.1⟩ <;> linarith
  · rw [mul_lt_mul_iff_of_pos_right hpos, mul_lt_mul_iff_of_pos_right hpos] at h
    have hnear : |w - m| < 1 / 2 := abs_lt.2 ⟨by linarith, by linarith⟩
    exact ⟨⟨hnear.le, fun heq => absurd heq hnear.ne⟩, hquarter h.1.le⟩

-- Just below a power of two the mantissa has one bit more, and is rounded up to that power.

theorem rounds_below_power {v : ℚ} {e : ℤ} (hlow : 2 ^ 52 - 1 / 4 ≤ v / 2 ^ e)
    (hhigh : v / 2 ^ e < 2 ^ 52) :
    2 ^ 52 * 2 ^ (e - 1) ≤ v ∧ v < 2 ^ 53 * 2 ^ (e - 1) ∧ Rounds (v / 2 ^ (e - 1)) (2 ^ 53) := by
  have hpos := two_zpow_pos (e - 1)
  have hdouble : v / 2 ^ (e - 1) = 2 * (v / 2 ^ e) := by
    rw [← sub_add_cancel e 1, two_zpow_succ, add_sub_cancel_right]
    field_simp
  have hpower : ((2 ^ 53 : ℕ) : ℚ) = 2 * 2 ^ 52 := by norm_num
  refine ⟨?_, ?_, abs_le.2 ⟨?_, ?_⟩, fun _ => by norm_num⟩
  · rw [← le_div_iff₀ hpos, hdouble]
    linarith
  · rw [← div_lt_iff₀ hpos, hdouble]
    linarith
  · rw [hdouble, hpower]
    linarith
  · rw [hdouble, hpower]
    linarith

theorem pattern_power {e : ℤ} (he : -1074 < e) : pattern (2 ^ 53) (e - 1) = pattern (2 ^ 52) e := by
  rw [pattern, pattern, Nat.pow_eq, if_neg (by norm_num), if_neg (by norm_num)]
  omega

-- Everything in the interval of a number is nearest to that number.
theorem Interval.nearestBits_eq {m : ℕ} {e : ℤ} {num den : ℕ} (hlegal : Legal m e) (hm : 0 < m)
    (hnum : num ≠ 0) (hden : den ≠ 0) (h : (Interval.of m e).Contains (num / den)) :
    nearestBits num den = pattern m e := by
  obtain ⟨hlow, hhigh⟩ := leadingExponent_spec hnum hden
  have hmultiple := rounds_multiple num hden
  obtain ⟨hrounds, hquarter⟩ := rounds_of_contains hm h
  have hmin := Nat.min_eq_left hlegal.pattern_lt.le
  simp only [nearestBits, hnum, hden, or_self, if_false]
  generalize leadingExponent num den = lead at hlow hhigh ⊢
  generalize (num : ℚ) / den = v at hlow hhigh hmultiple hrounds hquarter
  have hpos := two_zpow_pos e
  have hnear := abs_le.1 hrounds.near
  have hmantissa : (m : ℚ) + 1 ≤ 2 ^ 53 := by exact_mod_cast hlegal.mantissa
  have hbelow : v / 2 ^ e < 2 ^ 53 := by linarith
  have hle : lead ≤ e := binade_le hlow ((div_lt_iff₀ hpos).1 hbelow)
  by_cases hfull : (2 : ℚ) ^ 52 ≤ v / 2 ^ e
  · have hlead : max lead (-1074) = e := by
      have := binade_le ((le_div_iff₀ hpos).1 hfull) hhigh
      have := hlegal.least
      omega
    rw [hlead, (hmultiple e).unique hrounds, hmin]
  by_cases hleast : e = -1074
  · have hlead : max lead (-1074) = e := by omega
    rw [hlead, (hmultiple e).unique hrounds, hmin]
  have hnormal : -1074 < e := lt_of_le_of_ne hlegal.least (Ne.symm hleast)
  have hpower : m = 2 ^ 52 := by
    have hlt : (m : ℚ) < 2 ^ 52 + 1 := by linarith
    have : m < 2 ^ 52 + 1 := by exact_mod_cast hlt
    have := hlegal.normal hnormal
    omega
  have hlow' := hquarter hpower hnormal
  rw [hpower] at hlow'
  obtain ⟨hfrom, hto, hround⟩ := rounds_below_power (by exact_mod_cast hlow') (not_le.1 hfull)
  have hlead : max lead (-1074) = e - 1 := by
    have := binade_le hfrom hhigh
    have := binade_le hlow hto
    omega
  rw [hlead, (hmultiple (e - 1)).unique hround, pattern_power hnormal, ← hpower, hmin]

theorem Interval.bounds_of_contains {m : ℕ} {e : ℤ} {v : ℚ} (hlegal : Legal m e) (hm : 0 < m)
    (h : (Interval.of m e).Contains v) : (2 : ℚ) ^ (-1075 : ℤ) ≤ v ∧ v < 2 ^ (1024 : ℤ) := by
  have hpos := two_zpow_pos e
  have hnear := abs_le.1 (rounds_of_contains hm h).1.near
  have hone : (1 : ℚ) ≤ m := by exact_mod_cast hm
  have hmantissa : (m : ℚ) + 1 ≤ 2 ^ 53 := by exact_mod_cast hlegal.mantissa
  constructor
  · calc (2 : ℚ) ^ (-1075 : ℤ) ≤ 2 ^ (e - 1) :=
          zpow_le_zpow_right₀ one_le_two (by have := hlegal.least; omega)
      _ = 1 / 2 * 2 ^ e := by
        rw [zpow_sub_one₀ two_ne_zero]
        ring
      _ ≤ v := by
        rw [← le_div_iff₀ hpos]
        linarith
  · calc v < 2 ^ 53 * 2 ^ e := by
          rw [← div_lt_iff₀ hpos]
          linarith
      _ = 2 ^ (e + 53) := by
        rw [← zpow_natCast, ← zpow_add₀ two_ne_zero]
        congr 1
        push_cast
        ring
      _ ≤ 2 ^ (1024 : ℤ) :=
        zpow_le_zpow_right₀ one_le_two (by have := hlegal.greatest; omega)

-- A power of ten is further from one than that power of eight.

theorem two_zpow_le_ten {p : ℤ} (hp : 0 ≤ p) : (2 : ℚ) ^ (3 * p) ≤ 10 ^ p := by
  rw [zpow_mul]
  exact zpow_le_zpow_left₀ hp (by norm_num) (by norm_num)

theorem zpow_le_zpow_of_nonpos {a b : ℚ} (ha : 0 < a) (hab : a ≤ b) {p : ℤ} (hp : p ≤ 0) :
    b ^ p ≤ a ^ p := by
  have h := zpow_le_zpow_left₀ (neg_nonneg.2 hp) ha.le hab
  rw [zpow_neg, zpow_neg] at h
  exact (inv_le_inv₀ (zpow_pos ha p) (zpow_pos (ha.trans_le hab) p)).1 h

theorem ten_zpow_le_two {p : ℤ} (hp : p ≤ 0) : (10 : ℚ) ^ p ≤ 2 ^ (3 * p) := by
  rw [zpow_mul]
  exact zpow_le_zpow_of_nonpos (by norm_num) (by norm_num) hp

-- A numeral whose value lies in the interval of a number reads as that number.
theorem Interval.ofDecimal_eq {m : ℕ} {e : ℤ} {n : ℕ} {p : ℤ} (negative : Bool)
    (hlegal : Legal m e) (hm : 0 < m) (h : (Interval.of m e).Contains (n * 10 ^ p)) :
    ofDecimal negative n p = Float.ofBits (UInt64.ofNat (signed negative (pattern m e))) := by
  obtain ⟨hlow, hhigh⟩ := bounds_of_contains hlegal hm h
  have hvalue : (0 : ℚ) < n * 10 ^ p := lt_of_lt_of_le (two_zpow_pos _) hlow
  have hn : n ≠ 0 := by
    rintro rfl
    simp at hvalue
  have hten : (0 : ℚ) < 10 ^ p := zpow_pos (by norm_num) p
  have hlarge : ¬ 400 < p := by
    intro hp
    refine absurd hhigh (not_lt.2 ?_)
    calc (2 : ℚ) ^ (1024 : ℤ) ≤ 2 ^ (3 * p) := zpow_le_zpow_right₀ one_le_two (by omega)
      _ ≤ 10 ^ p := two_zpow_le_ten (by omega)
      _ ≤ n * 10 ^ p := le_mul_of_one_le_left hten.le (by exact_mod_cast Nat.pos_of_ne_zero hn)
  have hsmall : ¬ (Nat.log2 n : ℤ) + 1 + 3 * p < -1100 := by
    intro hp
    refine absurd hlow (not_le.2 ?_)
    calc (n : ℚ) * 10 ^ p ≤ 2 ^ ((Nat.log2 n : ℤ) + 1) * 2 ^ (3 * p) := by
          gcongr
          · exact (lt_zpow_log2 n).le
          · exact ten_zpow_le_two (by omega)
      _ = 2 ^ ((Nat.log2 n : ℤ) + 1 + 3 * p) := by rw [← zpow_add₀ two_ne_zero]
      _ < 2 ^ (-1075 : ℤ) := zpow_lt_zpow_right₀ one_lt_two (by omega)
  have hscale := scale_div n 10 p
  have hden := scale_pos (by norm_num : 0 < 10) n p
  have hnum : (scale n 10 p).1 ≠ 0 := by
    intro hzero
    rw [hzero, Nat.cast_zero, zero_div] at hscale
    exact hvalue.ne hscale
  have hbits := nearestBits_eq hlegal hm hnum hden.ne' (by rw [hscale]; exact h)
  rw [ofDecimal, if_neg hn, if_neg hlarge, if_neg hsmall]
  exact congrArg (fun bits => Float.ofBits (UInt64.ofNat (signed negative bits))) hbits

end Shortest

end BarReplay.Decimal
