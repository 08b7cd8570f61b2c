import BarReplay.Amount.Double
import BarReplay.Proofs.Decimal.Interval

namespace BarReplay.Decimal.Binary64

open Float.Model Float.Model.UnpackedFloat

theorem isFinite_unpack_iff (b : BitVec Format.binary64.numBits) :
    (UnpackedFloat.unpack Format.binary64 b).isFinite = true ↔ unpackExponent b ≠ -1#11 := by
  unfold UnpackedFloat.unpack
  dsimp only
  by_cases hones : unpackExponent b = -1#11
  · refine iff_of_false ?_ (not_not_intro hones)
    rw [if_pos hones]
    split <;> exact Bool.false_ne_true
  · refine iff_of_true ?_ hones
    rw [if_neg hones]
    by_cases hzero : unpackExponent b = 0#11
    · rw [if_pos hzero]
      by_cases hmantissa : unpackMantissa b = 0#52
      · rw [dif_pos hmantissa]
        rfl
      · rw [dif_neg hmantissa]
        rfl
    · rw [if_neg hzero]
      rfl

-- A word is a finite number unless its exponent field is full.
theorem isFinite_ofBits_iff {w : ℕ} (hw : w < 2 ^ 64) :
    (Float.ofBits (UInt64.ofNat w)).isFinite = true ↔ w / 2 ^ 52 % 2 ^ 11 ≠ 2047 := by
  obtain ⟨b, hb⟩ : ∃ b : BitVec Format.binary64.numBits, b = (UInt64.ofNat w).toBitVec := ⟨_, rfl⟩
  have htoNat : b.toNat = w := by
    rw [hb]
    exact Nat.mod_eq_of_lt hw
  have hfield : unpackExponent b = -1#11 ↔ w / 2 ^ 52 % 2 ^ 11 = 2047 := by
    rw [← BitVec.toNat_inj, unpackExponent, BitVec.toNat_cast, BitVec.extractLsb_toNat,
      Nat.shiftRight_eq_div_pow, htoNat]
    exact Iff.rfl
  change (Float.Model.pack (UnpackedFloat.unpack Format.binary64
    (UInt64.ofNat w).toBitVec)).unpack.isFinite = true ↔ _
  rw [← hb, ne_eq, ← hfield]
  by_cases hones : unpackExponent b = -1#11
  · simp only [hones, not_true_eq_false, iff_false, Bool.not_eq_true]
    unfold UnpackedFloat.unpack
    dsimp only
    rw [if_pos hones]
    split
    · cases Sign.ofBitVec (unpackSign b) <;> rfl
    · rfl
  · simp only [hones, not_false_eq_true, iff_true]
    have hword : (Float.Model.pack (UnpackedFloat.unpack Format.binary64 b)).unpack =
        UnpackedFloat.unpack Format.binary64 b :=
      congrArg (UnpackedFloat.unpack Format.binary64) (pack_unpack ⟨fun h => absurd h hones⟩)
    rw [hword]
    exact (isFinite_unpack_iff b).2 hones

-- The mantissa of a whole number at the exponent that gives it 53 bits.
theorem multiple_bounds {n : ℕ} (hn : n ≠ 0) :
    2 ^ 52 ≤ multiple n 1 (leadingExponent n 1) ∧ multiple n 1 (leadingExponent n 1) ≤ 2 ^ 53 := by
  obtain ⟨hlow, hhigh⟩ := leadingExponent_spec hn one_ne_zero
  have hpos := two_zpow_pos (leadingExponent n 1)
  have hnear := abs_le.1 (rounds_multiple n one_ne_zero (leadingExponent n 1)).near
  rw [← le_div_iff₀ hpos] at hlow
  rw [← div_lt_iff₀ hpos] at hhigh
  constructor
  · have h : (2 : ℚ) ^ 52 < multiple n 1 (leadingExponent n 1) + 1 := by linarith
    exact Nat.lt_succ_iff.1 (by exact_mod_cast h)
  · have h : (multiple n 1 (leadingExponent n 1) : ℚ) < 2 ^ 53 + 1 := by linarith
    exact Nat.lt_succ_iff.1 (by exact_mod_cast h)

theorem leadingExponent_ge {n : ℕ} (hn : n ≠ 0) : -52 ≤ leadingExponent n 1 := by
  obtain ⟨-, hhigh⟩ := leadingExponent_spec hn one_ne_zero
  have hone : (2 : ℚ) ^ (0 : ℤ) < 2 ^ (53 + leadingExponent n 1) := by
    rw [zpow_add₀ two_ne_zero, zpow_zero]
    have hn1 : (1 : ℚ) ≤ n := by exact_mod_cast Nat.pos_of_ne_zero hn
    rw [Nat.cast_one, div_one] at hhigh
    exact lt_of_le_of_lt hn1 hhigh
  have := (zpow_lt_zpow_iff_right₀ one_lt_two).1 hone
  omega

-- No pattern is beyond that of infinity.
theorem nearestBits_le (num den : ℕ) : nearestBits num den ≤ 2047 * 2 ^ 52 := by
  unfold nearestBits
  split
  · exact Nat.zero_le _
  · exact Nat.min_le_right _ _

theorem nearestBits_whole {n : ℕ} (hn : n ≠ 0) :
    nearestBits n 1 = min ((leadingExponent n 1 + 1074).toNat * 2 ^ 52 +
      multiple n 1 (leadingExponent n 1)) (2047 * 2 ^ 52) := by
  have hge := leadingExponent_ge hn
  have hmantissa := (multiple_bounds hn).1
  have hexponent : max (leadingExponent n 1) (-1074) = leadingExponent n 1 := by omega
  rw [nearestBits, if_neg (by omega)]
  simp only [hexponent]
  rw [pattern, Nat.pow_eq, if_neg (by omega)]

-- In the last binade rounding overflows from half a unit below its end on: the largest mantissa
-- is odd, so the tie goes up.
theorem largest_lt_iff {x : ℚ} {m : ℕ} (h : Rounds x m) : m < 2 ^ 53 ↔ x < 2 ^ 53 - 1 / 2 := by
  obtain ⟨hlow, hhigh⟩ := abs_le.1 h.near
  constructor
  · intro hm
    have hmost : (m : ℚ) + 1 ≤ 2 ^ 53 := by exact_mod_cast hm
    refine lt_of_le_of_ne (by linarith) fun hx => ?_
    have hm : m = 2 ^ 53 - 1 := by
      have : (2 : ℚ) ^ 53 ≤ m + 1 := by linarith
      have : 2 ^ 53 ≤ m + 1 := by exact_mod_cast this
      omega
    have hmq : (m : ℚ) = 2 ^ 53 - 1 := by
      rw [hm]
      norm_num
    have heven := h.even (by rw [hx, hmq]; norm_num)
    rw [hm] at heven
    revert heven
    decide
  · intro hx
    have : (m : ℚ) < 2 ^ 53 := by linarith
    exact_mod_cast this

-- Rounding overflows from half a unit above the largest finite number on.
theorem nearestBits_lt_iff (n : ℕ) :
    nearestBits n 1 < 2047 * 2 ^ 52 ↔ n + 2 ^ 970 < 2 ^ 1024 := by
  have hpowers : 2 ^ 970 + 2 ^ 1023 < 2 ^ 1024 := by
    have := Nat.pow_lt_pow_right (a := 2) one_lt_two (show 970 < 1023 by decide)
    omega
  by_cases hn : n = 0
  · subst hn
    exact ⟨fun _ => by omega, fun _ => by decide⟩
  obtain ⟨hlow, hhigh⟩ := leadingExponent_spec hn one_ne_zero
  obtain ⟨hleast, hmost⟩ := multiple_bounds hn
  have hge := leadingExponent_ge hn
  have hrounds := rounds_multiple n one_ne_zero (leadingExponent n 1)
  rw [nearestBits_whole hn]
  rw [Nat.cast_one, div_one] at hlow hhigh hrounds
  generalize leadingExponent n 1 = e at *
  generalize multiple n 1 e = m at *
  obtain hsmall | rfl | hlarge := lt_trichotomy e 971
  · -- the number is below the last binade
    have hn' : (n : ℚ) < 2 ^ 1023 := by
      calc (n : ℚ) < 2 ^ 53 * 2 ^ e := hhigh
        _ ≤ 2 ^ 53 * 2 ^ (970 : ℤ) := by
          gcongr
          · norm_num
          · omega
        _ = 2 ^ 1023 := by
          rw [← zpow_natCast, ← zpow_natCast, ← zpow_add₀ two_ne_zero]
          rfl
    have hn' : n < 2 ^ 1023 := by exact_mod_cast hn'
    exact ⟨fun _ => by omega, fun _ => by omega⟩
  · have hbits : min ((971 + 1074 : ℤ).toNat * 2 ^ 52 + m) (2047 * 2 ^ 52) < 2047 * 2 ^ 52 ↔
        m < 2 ^ 53 := by
      omega
    have hend : ((2 : ℚ) ^ 53 - 1 / 2) * 2 ^ (971 : ℤ) = 2 ^ 1024 - 2 ^ 970 := by
      have h971 : (2 : ℚ) ^ (971 : ℤ) = 2 * 2 ^ 970 := two_zpow_succ 970
      have h1024 : (2 : ℚ) ^ 1024 = 2 ^ 54 * 2 ^ 970 := by rw [← pow_add]
      rw [h971, h1024]
      generalize (2 : ℚ) ^ 970 = unit
      ring
    rw [hbits, largest_lt_iff hrounds, div_lt_iff₀ (two_zpow_pos 971), hend, lt_sub_iff_add_lt]
    exact_mod_cast Iff.rfl
  · -- the number is above it
    have hn' : (2 : ℚ) ^ 1024 ≤ n := by
      calc (2 : ℚ) ^ 1024 = 2 ^ 52 * 2 ^ (972 : ℤ) := by
            rw [← zpow_natCast, ← zpow_natCast, ← zpow_add₀ two_ne_zero]
            rfl
        _ ≤ 2 ^ 52 * 2 ^ e := by
          gcongr
          · norm_num
          · omega
        _ ≤ n := hlow
    have hn' : 2 ^ 1024 ≤ n := by exact_mod_cast hn'
    exact ⟨fun _ => by omega, fun _ => by omega⟩

-- The sign does not touch what makes a number finite.
theorem isFinite_nearest_iff (negative : Bool) {n : ℕ} :
    (nearest negative n 1).isFinite = true ↔ n + 2 ^ 970 < 2 ^ 1024 := by
  have hmost := nearestBits_le n 1
  have hword : signed negative (nearestBits n 1) < 2 ^ 64 := by
    rw [signed, Nat.pow_eq]
    split <;> omega
  have hfield : signed negative (nearestBits n 1) / 2 ^ 52 % 2 ^ 11 =
      nearestBits n 1 / 2 ^ 52 := by
    rw [signed, Nat.pow_eq]
    split <;> omega
  rw [nearest, isFinite_ofBits_iff hword, hfield, ← nearestBits_lt_iff]
  omega

end BarReplay.Decimal.Binary64

namespace BarReplay.Double

-- A whole number fails to be a double from half a unit above the largest one on, of either sign.
theorem ofInt_eq_error_iff {n : ℤ} {f : Fault} :
    ofInt n = .error f ↔ f = .overflow ∧ 2 ^ 1024 ≤ n.natAbs + 2 ^ 970 := by
  rw [← not_lt, ← Decimal.Binary64.isFinite_nearest_iff (decide (n < 0)), ofInt]
  split
  · rename_i h
    simp [h]
  · rename_i h
    simp [h, eq_comm]

end BarReplay.Double
