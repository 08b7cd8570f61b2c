import BarReplay.Proofs.Decimal.Arithmetic

namespace BarReplay.Decimal.Binary64

open Float.Model Float.Model.UnpackedFloat

-- A word without a sign and with an exponent is a positive number.
theorem unpack_ofBits {w : ℕ} (hlow : 2 ^ 52 ≤ w) (hhigh : w < 2047 * 2 ^ 52) :
    ∃ hpos, (Float.ofBits (UInt64.ofNat w)).toModel.unpack =
      .finite .positive (2 ^ 52 + w % 2 ^ 52) ((w / 2 ^ 52 : ℕ) - 1075) hpos := by
  obtain ⟨b, hb⟩ : ∃ b : BitVec Format.binary64.numBits, b = (UInt64.ofNat w).toBitVec := ⟨_, rfl⟩
  have htoNat : b.toNat = w := by
    rw [hb]
    exact Nat.mod_eq_of_lt (by omega)
  have hexponent : unpackExponent b = BitVec.ofNat 11 (w / 2 ^ 52) := by
    rw [← BitVec.toNat_inj, unpackExponent, BitVec.toNat_cast, BitVec.extractLsb_toNat,
      Nat.shiftRight_eq_div_pow, htoNat]
    rfl
  have hmantissa : unpackMantissa b = BitVec.ofNat 52 (w % 2 ^ 52) := by
    rw [← BitVec.toNat_inj, unpackMantissa, BitVec.toNat_cast, BitVec.extractLsb_toNat,
      Nat.shiftRight_eq_div_pow, htoNat, BitVec.toNat_ofNat, Nat.mod_mod]
    simp
  have hsign : unpackSign b = 0#1 := by
    unfold unpackSign
    rw [← BitVec.toNat_inj, BitVec.toNat_cast, BitVec.extractLsb_toNat,
      Nat.shiftRight_eq_div_pow, htoNat]
    change w / 2 ^ 63 % 2 ^ 1 = 0
    omega
  have hplus : Sign.ofBitVec 0#1 = .positive := rfl
  have hword := packComponents_unpack b
  rw [hsign, hexponent, hmantissa, hplus] at hword
  obtain ⟨hpos, hunpack⟩ := (unpack_packComponents .positive (by omega : w / 2 ^ 52 < 2047)
    (by omega : w % 2 ^ 52 < 2 ^ 52) _ rfl).1 (by omega)
  rw [hword] at hunpack
  refine ⟨hpos, ?_⟩
  change (Float.Model.pack (UnpackedFloat.unpack Format.binary64
    (UInt64.ofNat w).toBitVec)).unpack = _
  rw [← hb, hunpack]
  exact unpack_pack_legal .positive hpos ⟨by omega, by omega, by omega, fun _ => by omega⟩

-- One, as a multiple of the least positive number.
def unitsOfOne : ℤ :=
  2 ^ 1074

theorem unitsOfOne_pos : 0 < unitsOfOne :=
  pow_pos two_pos _

-- A count as a double is not less than one, and nearly the count.
theorem unpack_count {n : ℕ} (hn : n ≠ 0) (h : (nearest false n 1).isFinite = true) :
    ∃ m e, ∃ hm : 0 < m, (nearest false n 1).toModel.unpack = .finite .positive m e hm ∧
      unitsOfOne ≤ m * 2 ^ (e + 1074).toNat ∧
      9 * (n * unitsOfOne) ≤ 10 * (m * 2 ^ (e + 1074).toNat) := by
  have hbits := (nearestBits_lt_iff n).2 ((isFinite_nearest_iff false).1 h)
  obtain ⟨hleast, hmost⟩ := multiple_bounds hn
  have hexponent := leadingExponent_ge hn
  have hrounds := rounds_multiple n one_ne_zero (leadingExponent n 1)
  rw [nearest, signed, if_neg Bool.false_ne_true]
  rw [nearestBits_whole hn] at hbits ⊢
  rw [Nat.cast_one, div_one] at hrounds
  generalize leadingExponent n 1 = e at *
  generalize multiple n 1 e = m at *
  rw [min_eq_left (by omega)]
  obtain ⟨k, hk⟩ : ∃ k, k = (e + 1074).toNat := ⟨_, rfl⟩
  rw [← hk] at hbits ⊢
  obtain ⟨hpos, hunpack⟩ := unpack_ofBits (by omega : 2 ^ 52 ≤ k * 2 ^ 52 + m) (by omega)
  have hvalue : ((2 ^ 52 + (k * 2 ^ 52 + m) % 2 ^ 52 : ℕ) : ℤ) *
      2 ^ (((k * 2 ^ 52 + m) / 2 ^ 52 : ℕ) - 1075 + 1074 : ℤ).toNat = m * 2 ^ k := by
    obtain hlt | heq := hmost.lt_or_eq
    · have hmod : (k * 2 ^ 52 + m) % 2 ^ 52 = m - 2 ^ 52 := by omega
      have hdiv : (((k * 2 ^ 52 + m) / 2 ^ 52 : ℕ) - 1075 + 1074 : ℤ).toNat = k := by omega
      rw [hmod, hdiv, Nat.add_sub_cancel' hleast]
    · have hmod : (k * 2 ^ 52 + m) % 2 ^ 52 = 0 := by omega
      have hdiv : (((k * 2 ^ 52 + m) / 2 ^ 52 : ℕ) - 1075 + 1074 : ℤ).toNat = k + 1 := by omega
      rw [hmod, hdiv, heq, pow_succ]
      push_cast
      ring
  refine ⟨_, _, hpos, hunpack, ?_⟩
  rw [hvalue]
  have hmantissa : (2 : ℤ) ^ 52 ≤ m := by exact_mod_cast hleast
  constructor
  · calc unitsOfOne = 2 ^ 52 * 2 ^ 1022 := pow_add 2 52 1022
      _ ≤ (m : ℤ) * 2 ^ k :=
        mul_le_mul hmantissa (pow_le_pow_right₀ one_le_two (by omega)) (by positivity)
          (by positivity)
  · -- the mantissa is off by a half at most
    have habove := (abs_le.1 hrounds.near).2
    have hnear : (n : ℚ) ≤ (m + 1 / 2) * 2 ^ e := by
      rw [← div_le_iff₀ (two_zpow_pos e)]
      linarith
    have hone : (2 : ℚ) ^ e * (unitsOfOne : ℤ) = 2 ^ k := by
      rw [unitsOfOne, Int.cast_pow, Int.cast_ofNat, ← zpow_natCast, ← zpow_natCast,
        ← zpow_add₀ two_ne_zero]
      congr 1
      omega
    have hscaled : (n : ℚ) * (unitsOfOne : ℤ) ≤ (m + 1 / 2) * 2 ^ k := by
      rw [← hone, ← mul_assoc]
      exact mul_le_mul_of_nonneg_right hnear (by exact_mod_cast unitsOfOne_pos.le)
    have hscaled : 2 * (n * unitsOfOne) ≤ (2 * m + 1) * 2 ^ k := by
      have : (2 : ℚ) * (n * (unitsOfOne : ℤ)) ≤ (2 * m + 1) * 2 ^ k := by linarith
      exact_mod_cast this
    have hpower : (0 : ℤ) < 2 ^ k := pow_pos two_pos k
    have hhalf : 18 * (2 : ℤ) ^ k ≤ 2 * m * 2 ^ k :=
      mul_le_mul_of_nonneg_right (by linarith) hpower.le
    generalize unitsOfOne = unit at *
    linarith

-- The quotient of two mantissas, with 53 bits before the point at least unless the number is tiny.
theorem le_target_div {m n : ℕ} (hm : 0 < m) (hn : 0 < n) {e f t : ℤ}
    (ht : t = min (e - f) (max ((m.log2 : ℤ) - n.log2 + (e - f) - 53) (-1074))) :
    t ≤ target (m * 2 ^ (e - f - t).toNat / n) t := by
  unfold target
  by_cases hleast : t ≤ -1074
  · omega
  have hlog : n.log2 + 1 + 52 ≤ m.log2 + (e - f - t).toNat := by omega
  have hquotient : 2 ^ 52 ≤ m * 2 ^ (e - f - t).toNat / n := by
    rw [Nat.le_div_iff_mul_le hn]
    calc 2 ^ 52 * n ≤ 2 ^ 52 * 2 ^ (n.log2 + 1) := Nat.mul_le_mul_left _ Nat.lt_log2_self.le
      _ = 2 ^ (n.log2 + 1 + 52) := by rw [← pow_add, add_comm]
      _ ≤ 2 ^ (m.log2 + (e - f - t).toNat) := Nat.pow_le_pow_right Nat.two_pos hlog
      _ = 2 ^ m.log2 * 2 ^ (e - f - t).toNat := pow_add _ _ _
      _ ≤ m * 2 ^ (e - f - t).toNat := Nat.mul_le_mul_right _ (Nat.log2_self_le hm.ne')
  have hle := (Nat.le_log2 (by omega)).2 hquotient
  omega

theorem div_finite (s : Sign) {m n : ℕ} (hm : 0 < m) (hn : 0 < n) {e f : ℤ} :
    ∃ t, t = min (e - f) (max ((m.log2 : ℤ) - n.log2 + (e - f) - 53) (-1074)) ∧
      UnpackedFloat.div Format.binary64 (.finite s m e hm) (.finite .positive n f hn) =
        roundWithAccuracy Format.binary64 s (m * 2 ^ (e - f - t).toNat / n) t
          (accuracyOfFraction (m * 2 ^ (e - f - t).toNat % n) n) := by
  have htarget : Format.binary64.targetExponent (totalExponent m e - totalExponent n f) =
      max ((m.log2 : ℤ) - n.log2 + (e - f) - 53) (-1074) := by
    have hleast : Format.binary64.minExponent = -1074 := rfl
    have hbits : (Format.binary64.mantissaBits : ℤ) = 53 := rfl
    rw [Format.targetExponent, totalExponent, totalExponent, hleast, hbits]
    congr 1
    ring
  refine ⟨_, rfl, ?_⟩
  rw [← htarget, ← Nat.shiftLeft_eq]
  cases s <;> rfl

section Quotient

-- A quotient of `m` and `n`, whose last places count `place` of what it is taken in. Their units
-- are `start` and `scale`, that of the quotient is `unit`.
section Scaled

variable {m n q start scale unit shift place : ℤ} (hplace : 0 < place) (hscale : 0 < unit * scale)
  (hpowers : shift * unit * scale = start * unitsOfOne * place)

include hplace hscale hpowers

theorem scaled_near (h : 2 * (q * (n * place)) ≤ 2 * (m * shift) + n * place) :
    2 * (q * unit * (n * scale)) ≤ 2 * (m * start * unitsOfOne) + n * scale * unit := by
  refine le_of_mul_le_mul_right ?_ hplace
  calc 2 * (q * unit * (n * scale)) * place = 2 * (q * (n * place)) * (unit * scale) := by ring
    _ ≤ (2 * (m * shift) + n * place) * (unit * scale) := mul_le_mul_of_nonneg_right h hscale.le
    _ = 2 * (m * (shift * unit * scale)) + n * scale * unit * place := by ring
    _ = (2 * (m * start * unitsOfOne) + n * scale * unit) * place := by
      rw [hpowers]
      ring

theorem scaled_large (h : 2 ^ 52 * (n * place) ≤ m * shift) :
    2 ^ 52 * unit * (n * scale) ≤ m * start * unitsOfOne := by
  refine le_of_mul_le_mul_right ?_ hplace
  calc 2 ^ 52 * unit * (n * scale) * place = 2 ^ 52 * (n * place) * (unit * scale) := by ring
    _ ≤ m * shift * (unit * scale) := mul_le_mul_of_nonneg_right h hscale.le
    _ = m * (shift * unit * scale) := by ring
    _ = m * start * unitsOfOne * place := by
      rw [hpowers]
      ring

end Scaled

variable {m n : ℕ} {e f g t : ℤ}

-- The quotient is taken at the exponent `g` and rounded at the exponent `t`.
theorem quotient_exponents (he : -1074 ≤ e) (hf : -1074 ≤ f) (hg : g ≤ e - f) (hgt : g ≤ t)
    (ht : -1074 ≤ t) :
    (2 : ℤ) ^ (e - f - g).toNat * 2 ^ (t + 1074).toNat * 2 ^ (f + 1074).toNat =
      2 ^ (e + 1074).toNat * unitsOfOne * 2 ^ (t - g).toNat := by
  rw [unitsOfOne, ← pow_add, ← pow_add, ← pow_add, ← pow_add]
  congr 1
  omega

-- It is off by half a unit of its last place at most,
theorem quotient_near (hn : 0 < n) (he : -1074 ≤ e) (hf : -1074 ≤ f) (hg : g ≤ e - f)
    (hgt : g ≤ t) (ht : -1074 ≤ t) :
    2 * (divideEven (m * 2 ^ (e - f - g).toNat) (n * 2 ^ (t - g).toNat) * 2 ^ (t + 1074).toNat *
        (n * 2 ^ (f + 1074).toNat)) ≤
      2 * (m * 2 ^ (e + 1074).toNat * unitsOfOne) +
        n * 2 ^ (f + 1074).toNat * 2 ^ (t + 1074).toNat := by
  obtain ⟨hnear, -⟩ := divideEven_near (m * 2 ^ (e - f - g).toNat)
    (Nat.mul_pos hn (Nat.two_pow_pos (t - g).toNat))
  have hlow := neg_abs_le ((m * 2 ^ (e - f - g).toNat : ℕ) -
    (divideEven (m * 2 ^ (e - f - g).toNat) (n * 2 ^ (t - g).toNat) : ℤ) *
      (n * 2 ^ (t - g).toNat : ℕ))
  refine scaled_near (by positivity) (by positivity) (quotient_exponents he hf hg hgt ht) ?_
  push_cast at hnear hlow
  linarith

-- and has 53 bits unless the place is the least.
theorem quotient_large (hn : 0 < n) (he : -1074 ≤ e) (hf : -1074 ≤ f) (hg : g ≤ e - f)
    (hgt : g ≤ t) (ht : -1074 ≤ t)
    (hlarge : 2 ^ 52 ≤ m * 2 ^ (e - f - g).toNat / n / 2 ^ (t - g).toNat) :
    2 ^ 52 * 2 ^ (t + 1074).toNat * (n * 2 ^ (f + 1074).toNat) ≤
      (m : ℤ) * 2 ^ (e + 1074).toNat * unitsOfOne := by
  rw [Nat.div_div_eq_div_mul, Nat.le_div_iff_mul_le (Nat.mul_pos hn (Nat.two_pow_pos _))] at hlarge
  refine scaled_large (by positivity) (by positivity) (quotient_exponents he hf hg hgt ht) ?_
  exact_mod_cast hlarge

end Quotient

section Bounds

variable {r x d unit : ℤ}

theorem lt_ceiling_of_near (hd : unitsOfOne ≤ d) (hx : 0 ≤ x)
    (hlargest : x ≤ ceiling - 2 * halfStep) (hunit : unit ≤ 2 * halfStep)
    (hnear : 2 * (r * d) ≤ 2 * (x * unitsOfOne) + d * unit) : r < ceiling := by
  have hdpos := unitsOfOne_pos.trans_le hd
  have hone : x * unitsOfOne ≤ x * d := mul_le_mul_of_nonneg_left hd hx
  have hle : 2 * r ≤ 2 * x + unit := by
    refine le_of_mul_le_mul_right ?_ hdpos
    linarith
  have hpos := halfStep_pos
  linarith

theorem relative_of_near (hd : 0 < d) (hunit : 2 ^ 52 * unit ≤ r)
    (hnear : 2 * (r * d) ≤ 2 * (x * unitsOfOne) + d * unit) :
    (2 ^ 53 - 1) * (r * d) ≤ 2 ^ 53 * (x * unitsOfOne) := by
  have hscaled := mul_le_mul_of_nonneg_left hunit hd.le
  linarith

theorem place_le {k : ℕ} (hd : unitsOfOne ≤ d) (hx : x < ceiling)
    (hlarge : 2 ^ 52 * 2 ^ k * d ≤ x * unitsOfOne) : 2 ^ k ≤ 2 * halfStep := by
  have hone : (2 : ℤ) ^ 52 * 2 ^ k * unitsOfOne ≤ 2 ^ 52 * 2 ^ k * d :=
    mul_le_mul_of_nonneg_left hd (mul_nonneg (pow_nonneg zero_le_two _) (pow_nonneg zero_le_two _))
  have hsmall : (2 : ℤ) ^ 52 * 2 ^ k < ceiling :=
    (le_of_mul_le_mul_right (hone.trans hlarge) unitsOfOne_pos).trans_lt hx
  rw [← pow_add] at hsmall
  have hk := lt_of_two_pow_lt_ceiling hsmall
  rw [← two_mul_halfStep]
  exact pow_le_pow_right₀ one_le_two (by omega)

end Bounds

-- The quotient of a number by one that is not less than one: not too large, on the same side of
-- zero, and with a small error unless it is tiny.
theorem div_spec {u : UnpackedFloat} (hu : Canonical u) (hlt : |units u| < ceiling) {n : ℕ}
    {f : ℤ} (hn : 0 < n) (hf : -1074 ≤ f) (hone : unitsOfOne ≤ n * 2 ^ (f + 1074).toNat) :
    ∃ w, w = UnpackedFloat.div Format.binary64 u (.finite .positive n f hn) ∧ Canonical w ∧
      |units w| < ceiling ∧ (0 ≤ units u → 0 ≤ units w) ∧ (units u ≤ 0 → units w ≤ 0) ∧
      (2 ^ 52 ≤ |units w| →
        (2 ^ 53 - 1) * (|units w| * (n * 2 ^ (f + 1074).toNat)) ≤
          2 ^ 53 * (|units u| * unitsOfOne)) := by
  cases hu with
  | zero s =>
    have hdiv : UnpackedFloat.div Format.binary64 (.zero s) (.finite .positive n f hn) =
        .zero s := by
      cases s <;> rfl
    rw [hdiv]
    refine ⟨_, rfl, .zero _, ?_, fun _ => le_rfl, fun _ => le_rfl, ?_⟩
    · rw [units_zero, abs_zero]
      exact ceiling_pos
    · intro h
      rw [units_zero, abs_zero] at h
      exact absurd h (by decide)
  | @finite s m e hm h =>
    obtain ⟨g, hg, hdiv⟩ := div_finite s hm hn (e := e) (f := f)
    obtain ⟨t, ht⟩ : ∃ t, t = target (m * 2 ^ (e - f - g).toNat / n) g := ⟨_, rfl⟩
    have hge : g ≤ e - f := hg ▸ min_le_left _ _
    have hgt : g ≤ t := ht ▸ le_target_div hm hn hg
    have hleast : -1074 ≤ t := ht ▸ le_max_right _ _
    obtain ⟨hcanonical, hunits⟩ := roundWithAccuracy_spec s _ hn ht hgt
    obtain ⟨-, hnormal⟩ := shifted_bounds ht hgt
    have hnear := quotient_near hn h.least hf hge hgt hleast (m := m)
    obtain ⟨hfloor, -⟩ := divideEven_bounds (m * 2 ^ (e - f - g).toNat) (n * 2 ^ (t - g).toNat)
    rw [← Nat.div_div_eq_div_mul] at hfloor
    have hsize : 0 ≤ (m : ℤ) * 2 ^ (e + 1074).toNat :=
      mul_nonneg (Int.natCast_nonneg _) (pow_nonneg zero_le_two _)
    have hfits := abs_le_largest (Canonical.finite h).fits hlt
    rw [units_finite, abs_apply, abs_of_nonneg hsize] at hlt hfits
    rw [hdiv]
    refine ⟨_, rfl, hcanonical, ?_⟩
    have hresult : 0 ≤ (divideEven (m * 2 ^ (e - f - g).toNat) (n * 2 ^ (t - g).toNat) : ℤ) *
        2 ^ (t + 1074).toNat := mul_nonneg (Int.natCast_nonneg _) (pow_nonneg zero_le_two _)
    have hplace : (2 : ℤ) ^ (t + 1074).toNat ≤ 2 * halfStep := by
      obtain heq | hlarger := hleast.eq_or_lt
      · rw [← heq, ← two_mul_halfStep]
        exact pow_le_pow_right₀ one_le_two (by omega)
      · exact place_le hone hlt (quotient_large hn h.least hf hge hgt hleast (hnormal hlarger))
    rw [hunits, units_finite, abs_apply, abs_apply, abs_of_nonneg hresult, abs_of_nonneg hsize]
    refine ⟨lt_ceiling_of_near hone hsize hfits hplace hnear, ?_, ?_, fun htiny =>
      relative_of_near (unitsOfOne_pos.trans_le hone) ?_ hnear⟩
    · cases s with
      | positive => exact fun _ => hresult
      | negative => exact fun hneg => absurd hneg (not_le.2 (neg_lt_zero.2 (scaled_pos hm _)))
    · cases s with
      | positive => exact fun hpos => absurd hpos (not_le.2 (scaled_pos hm _))
      | negative => exact fun _ => neg_nonpos.2 hresult
    · obtain heq | hlt := hleast.eq_or_lt
      · rw [← heq] at htiny ⊢
        exact htiny
      · have hq : (2 : ℤ) ^ 52 ≤
            divideEven (m * 2 ^ (e - f - g).toNat) (n * 2 ^ (t - g).toNat) := by
          exact_mod_cast (hnormal hlt).trans hfloor
        exact mul_le_mul_of_nonneg_right hq (pow_nonneg zero_le_two _)

-- Every accuracy is that of a number of quarters.
theorem exists_quarters (m : ℕ) (a : Accuracy) :
    ∃ num, num / 4 = m ∧ accuracyOfFraction (num % 4) 4 = a := by
  have hquarters (r : ℕ) (hr : r < 4) : (4 * m + r) / 4 = m ∧ (4 * m + r) % 4 = r := by omega
  cases a with
  | exact =>
    obtain ⟨hdiv, hmod⟩ := hquarters 0 (by omega)
    exact ⟨_, hdiv, by rw [hmod]; rfl⟩
  | inexact o =>
    cases o with
    | lt =>
      obtain ⟨hdiv, hmod⟩ := hquarters 1 (by omega)
      exact ⟨_, hdiv, by rw [hmod]; rfl⟩
    | eq =>
      obtain ⟨hdiv, hmod⟩ := hquarters 2 (by omega)
      exact ⟨_, hdiv, by rw [hmod]; rfl⟩
    | gt =>
      obtain ⟨hdiv, hmod⟩ := hquarters 3 (by omega)
      exact ⟨_, hdiv, by rw [hmod]; rfl⟩

-- Rounding to an exponent that is not too large gives a finite number.
theorem roundWithAccuracy_lt (s : Sign) {m : ℕ} {e : ℤ} (a : Accuracy) (he : e ≤ target m e)
    (hlt : target m e ≤ 970) :
    Canonical (roundWithAccuracy Format.binary64 s m e a) ∧
      |units (roundWithAccuracy Format.binary64 s m e a)| < ceiling := by
  obtain ⟨num, hdiv, haccuracy⟩ := exists_quarters m a
  obtain ⟨hcanonical, hunits⟩ := roundWithAccuracy_spec s num (by decide : 0 < 4) rfl
    (by rwa [hdiv])
  obtain ⟨hmost, -⟩ := shifted_bounds (m := num / 4) rfl (by rwa [hdiv])
  obtain ⟨-, hceil⟩ := divideEven_bounds num (4 * 2 ^ (target (num / 4) e - e).toNat)
  rw [← Nat.div_div_eq_div_mul] at hceil
  rw [haccuracy, hdiv] at hcanonical hunits
  rw [hdiv] at hmost hceil
  refine ⟨hcanonical, ?_⟩
  have hq : (divideEven num (4 * 2 ^ (target m e - e).toNat) : ℤ) ≤ 2 ^ 53 := by
    exact_mod_cast (by omega)
  have hnonneg : 0 ≤ (divideEven num (4 * 2 ^ (target m e - e).toNat) : ℤ) *
      2 ^ (target m e + 1074).toNat :=
    mul_nonneg (Int.natCast_nonneg _) (pow_nonneg zero_le_two _)
  rw [hunits, abs_apply, abs_of_nonneg hnonneg]
  calc _ ≤ (2 : ℤ) ^ 53 * 2 ^ 2044 :=
        mul_le_mul hq (pow_le_pow_right₀ one_le_two (by omega)) (pow_nonneg zero_le_two _)
          (pow_nonneg zero_le_two _)
    _ < ceiling := mul_lt_mul_of_pos_right (pow_lt_pow_right₀ one_lt_two (by omega)) halfStep_pos

-- The root of a mantissa has half as many bits.
theorem log2_sqrt {m : ℕ} (hm : m ≠ 0) : m.sqrt.log2 = m.log2 / 2 := by
  have hlow : 2 ^ (m.log2 / 2) ≤ m.sqrt := by
    rw [Nat.le_sqrt, ← pow_add]
    exact (Nat.pow_le_pow_right Nat.two_pos (by omega)).trans (Nat.log2_self_le hm)
  have hhigh : m.sqrt < 2 ^ (m.log2 / 2 + 1) := by
    rw [Nat.sqrt_lt, ← pow_add]
    exact Nat.lt_log2_self.trans_le (Nat.pow_le_pow_right Nat.two_pos (by omega))
  have hpos := (Nat.two_pow_pos _).trans_le hlow
  exact (Nat.log2_eq_iff hpos.ne').2 ⟨hlow, hhigh⟩

theorem sqrt_spec {u : UnpackedFloat} (hu : Canonical u) (hlt : |units u| < ceiling)
    (h : 0 ≤ units u) :
    Canonical (UnpackedFloat.sqrt Format.binary64 u) ∧
      |units (UnpackedFloat.sqrt Format.binary64 u)| < ceiling := by
  cases hu with
  | zero s =>
    refine ⟨.zero s, ?_⟩
    have hzero : units (UnpackedFloat.sqrt Format.binary64 (.zero s)) = 0 := rfl
    rw [hzero, abs_zero]
    exact ceiling_pos
  | @finite s m e hm hplaced =>
    have hleast := hplaced.least
    have hbits : m.log2 < 53 := (Nat.log2_lt hm.ne').2 hplaced.mantissa
    have hgreatest := (hplaced.abs_units_lt_iff s hm).1 hlt
    have hsign : s = .positive := by
      cases s with
      | positive => rfl
      | negative =>
        have hpos := scaled_pos hm (e + 1074).toNat
        rw [units_finite, Sign.apply] at h
        linarith
    obtain ⟨t, ht⟩ : ∃ t, t = min (e / 2) (Format.binary64.targetExponent
      ((totalExponent m e + 1) / 2)) := ⟨_, rfl⟩
    have htarget : t = min (e / 2) (max ((m.log2 + 1 + e + 1) / 2 - 53) (-1074)) := by
      rw [ht, Format.targetExponent, totalExponent]
      rfl
    have hlog : (m * 2 ^ (e - 2 * t).toNat).sqrt.log2 = (m.log2 + (e - 2 * t).toNat) / 2 := by
      rw [log2_sqrt (Nat.mul_ne_zero hm.ne' (Nat.two_pow_pos _).ne'), log2_mul_two_pow hm.ne']
    have hroot : target (m * 2 ^ (e - 2 * t).toNat).sqrt t =
        max ((m.log2 + e) / 2 - 52) (-1074) := by
      rw [target, hlog]
      omega
    have hsqrt : ∃ a, UnpackedFloat.sqrt Format.binary64 (.finite .positive m e hm) =
        roundWithAccuracy Format.binary64 .positive (m * 2 ^ (e - 2 * t).toNat).sqrt t a := by
      rw [ht, ← Nat.shiftLeft_eq]
      exact ⟨_, rfl⟩
    obtain ⟨a, ha⟩ := hsqrt
    rw [hsign, ha]
    exact roundWithAccuracy_lt .positive a (by omega) (by omega)

-- A number times itself.
theorem mul_self_spec {u : UnpackedFloat} (hu : Canonical u) :
    Canonical (UnpackedFloat.mul Format.binary64 u u) ∧
      0 ≤ units (UnpackedFloat.mul Format.binary64 u u) ∧
      (2 ^ 1586 ≤ |units u| → ceiling ≤ units (UnpackedFloat.mul Format.binary64 u u)) := by
  cases hu with
  | zero s =>
    refine ⟨.zero _, le_rfl, fun hlarge => ?_⟩
    rw [units_zero, abs_zero] at hlarge
    exact absurd hlarge (not_le.2 (pow_pos two_pos _))
  | @finite s m e hm h =>
    obtain ⟨t, ht⟩ : ∃ t, t = target (m * m) (e + e) := ⟨_, rfl⟩
    have hleast := h.least
    have hlog (hnormal : 2 ^ 52 ≤ m) : 104 ≤ (m * m).log2 :=
      (Nat.le_log2 (Nat.mul_pos hm hm).ne').2
        (le_of_eq_of_le (pow_add 2 52 52) (Nat.mul_le_mul hnormal hnormal))
    have htarget : t = max ((m * m).log2 + (e + e) - 52) (-1074) := ht
    have he : e + e ≤ t := by
      by_cases hnormal : -1074 < e
      · have := hlog (h.normal hnormal)
        omega
      · omega
    obtain ⟨hcanonical, hunits⟩ := roundWithAccuracy_spec (s * s) (m * m) Nat.one_pos
      (by rw [Nat.div_one, ht]) he
    have hmul : roundWithAccuracy Format.binary64 (s * s) (m * m / 1) (e + e)
        (accuracyOfFraction (m * m % 1) 1) =
        UnpackedFloat.mul Format.binary64 (.finite s m e hm) (.finite s m e hm) := by
      rw [Nat.div_one, Nat.mod_one]
      rfl
    have hsign : s * s = .positive := by cases s <;> rfl
    rw [hmul, hsign, one_mul] at hunits
    rw [hmul] at hcanonical
    refine ⟨hcanonical, ?_, fun hlarge => ?_⟩
    · rw [hunits]
      exact mul_nonneg (Nat.cast_nonneg _) (pow_pos two_pos _).le
    · have hexponent : 460 ≤ e := by
        rw [units_finite, abs_apply, abs_of_pos (scaled_pos hm _)] at hlarge
        have hmantissa : (m : ℤ) * 2 ^ (e + 1074).toNat < 2 ^ 53 * 2 ^ (e + 1074).toNat :=
          mul_lt_mul_of_pos_right (by exact_mod_cast h.mantissa) (pow_pos two_pos _)
        rw [← pow_add] at hmantissa
        have := (pow_lt_pow_iff_right₀ one_lt_two).1 (hlarge.trans_lt hmantissa)
        omega
      have := hlog (h.normal (by omega))
      have hnormal := (shifted_bounds ht he).2 (by omega)
      have hfloor := (divideEven_bounds (m * m) (2 ^ (t - (e + e)).toNat)).1
      have hquotient : (2 : ℤ) ^ 52 ≤ divideEven (m * m) (2 ^ (t - (e + e)).toNat) := by
        exact_mod_cast hnormal.trans hfloor
      rw [hunits, ceiling_eq 52 2046 rfl]
      exact mul_le_mul hquotient (pow_le_pow_right₀ one_le_two (by omega)) (pow_pos two_pos _).le
        (Nat.cast_nonneg _)

end BarReplay.Decimal.Binary64

namespace BarReplay.Double

open Decimal Decimal.Binary64 Float.Model Float.Model.UnpackedFloat

variable {x : Float}

-- A number with the units of a canonical one that is not too large.
theorem isFinite_of_pack_canonical {u : UnpackedFloat} (hu : Canonical u)
    (hlt : |Binary64.units u| < ceiling) {y : Float} (hy : y.toModel = Float.Model.pack u) :
    y.isFinite = true ∧ units y = Binary64.units u := by
  have hpack := hu.unpack_pack
  rw [if_pos hlt, ← hy] at hpack
  constructor
  · change y.toModel.unpack.isFinite = true
    rw [hpack]
    exact hu.isFinite
  · exact congrArg Binary64.units hpack

theorem nonneg_of_pack_canonical {u : UnpackedFloat} (hu : Canonical u)
    (h : 0 ≤ Binary64.units u) {y : Float} (hy : y.toModel = Float.Model.pack u) : 0 ≤ y := by
  rw [le_iff, hy]
  cases hu with
  | zero s =>
    rw [Twins.unpack_pack_zero]
    rfl
  | @finite s m e hm hplaced =>
    cases s with
    | negative => exact absurd h (not_le.2 (neg_neg_of_pos (scaled_pos hm _)))
    | positive =>
      by_cases he : e ≤ 971
      · rw [unpack_pack_legal .positive hm ⟨hplaced.mantissa, hplaced.least, he, hplaced.normal⟩]
        rfl
      · rw [unpack_pack_beyond .positive hm (not_le.1 he)]
        rfl

-- The product of a number with itself is not below zero, and is infinite if the number is large.
theorem mul_self (hx : x.isFinite = true) :
    0 ≤ x * x ∧ (2 ^ 1586 ≤ |units x| → (x * x).isInf = true) := by
  obtain ⟨hcanonical, hnonneg, hlarge⟩ := mul_self_spec (canonical hx)
  refine ⟨nonneg_of_pack_canonical hcanonical hnonneg rfl, fun h => ?_⟩
  have hpack := hcanonical.unpack_pack
  rw [abs_of_nonneg hnonneg, if_neg (not_lt.2 (hlarge h))] at hpack
  exact hpack

-- Nothing times a number is nothing.
theorem mul_of_same_zero (hx : x.isFinite = true) {z : Float} (hz : Amount.same z 0 = true) :
    (z * x).isFinite = true ∧ units (z * x) = 0 := by
  have htwins : Twins z.toModel.unpack (.zero .positive) := alike_of_same hz
  have hmul : ∃ s, UnpackedFloat.mul Format.binary64 z.toModel.unpack x.toModel.unpack =
      .zero s := by
    have hcanonical := canonical hx
    generalize z.toModel.unpack = u, x.toModel.unpack = v at htwins hcanonical
    cases htwins <;> cases hcanonical <;> exact ⟨_, rfl⟩
  obtain ⟨s, hs⟩ := hmul
  have hlt : |Binary64.units (.zero s)| < ceiling := by
    rw [Binary64.units_zero, abs_zero]
    exact ceiling_pos
  have hpack : (z * x).toModel = Float.Model.pack (.zero s) := congrArg Float.Model.pack hs
  exact isFinite_of_pack_canonical (.zero s) hlt hpack

theorem isFinite_sqrt (hx : x.isFinite = true) (h : 0 ≤ units x) : x.sqrt.isFinite = true := by
  obtain ⟨hcanonical, hlt⟩ := sqrt_spec (canonical hx) (abs_units_lt hx) h
  exact (isFinite_of_pack_canonical hcanonical hlt rfl).1

-- A number divided by a count stays finite and keeps its sign, and is the quotient but for a small
-- error unless it is tiny.
theorem div_count (hx : x.isFinite = true) {n : ℕ} (hn : n ≠ 0) :
    (x / Amount.whole n).isFinite = true ∧
      (0 ≤ units x → 0 ≤ units (x / Amount.whole n)) ∧
      (units x ≤ 0 → units (x / Amount.whole n) ≤ 0) ∧
      (2 ^ 52 ≤ |units (x / Amount.whole n)| →
        4 * (|units (x / Amount.whole n)| * n) ≤ 5 * |units x|) := by
  change (x / nearest false n 1).isFinite = true ∧
    (0 ≤ units x → 0 ≤ units (x / nearest false n 1)) ∧
    (units x ≤ 0 → units (x / nearest false n 1) ≤ 0) ∧
    (2 ^ 52 ≤ |units (x / nearest false n 1)| →
      4 * (|units (x / nearest false n 1)| * n) ≤ 5 * |units x|)
  cases hcount : (nearest false n 1).isFinite with
  | true =>
    obtain ⟨m, e, hm, hunpack, hone, hnear⟩ := unpack_count hn hcount
    have he : -1074 ≤ e := (legal_of_unpack hunpack).least
    obtain ⟨w, hw, hcanonical, hlt, hpos, hneg, hrelative⟩ :=
      div_spec (canonical hx) (abs_units_lt hx) hm he hone
    rw [← hunpack] at hw
    obtain ⟨hfinite, hunits⟩ := isFinite_of_pack_canonical hcanonical hlt
      (y := x / nearest false n 1) (congrArg Float.Model.pack hw.symm)
    rw [hunits]
    refine ⟨hfinite, hpos, hneg, fun hlarge => ?_⟩
    have hrelative := hrelative hlarge
    have hscaled := mul_le_mul_of_nonneg_left hnear (abs_nonneg (Binary64.units w))
    refine le_of_mul_le_mul_right ?_ unitsOfOne_pos
    have hnonneg : 0 ≤ |Binary64.units x.toModel.unpack| * unitsOfOne :=
      mul_nonneg (abs_nonneg _) unitsOfOne_pos.le
    change 4 * (|Binary64.units w| * n) * unitsOfOne ≤
      5 * |Binary64.units x.toModel.unpack| * unitsOfOne
    generalize unitsOfOne = unit at *
    linarith
  | false =>
    -- more bars than there are numbers leave nothing of the quotient
    have hinf : (nearest false n 1).isInf = true := by
      by_contra hnot
      have := (isFinite_iff _).2 ⟨isNaN_nearest false n 1, Bool.not_eq_true _ ▸ hnot⟩
      rw [hcount] at this
      cases this
    obtain ⟨s, hs⟩ := exists_infinity hinf
    have hzero : ∃ r, UnpackedFloat.div Format.binary64 x.toModel.unpack
        (nearest false n 1).toModel.unpack = .zero r := by
      rw [hs]
      have hcanonical := canonical hx
      generalize x.toModel.unpack = u at hcanonical
      cases hcanonical <;> exact ⟨_, rfl⟩
    obtain ⟨r, hr⟩ := hzero
    obtain ⟨hfinite, hunits⟩ := isFinite_of_pack_canonical (.zero r) ceiling_pos
      (y := x / nearest false n 1) (congrArg Float.Model.pack hr)
    rw [hunits, Binary64.units_zero, abs_zero]
    exact ⟨hfinite, fun _ => le_rfl, fun _ => le_rfl, fun hlarge => absurd hlarge (by decide)⟩

end BarReplay.Double
