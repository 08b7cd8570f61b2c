import Mathlib.Data.Nat.Log
import BarReplay.Proofs.Decimal.Difference
import BarReplay.Proofs.Decimal.Grid

namespace BarReplay.Decimal

-- What the nearest whole number of a quotient is, without fractions.
theorem divideEven_near (num : ℕ) {den : ℕ} (hden : 0 < den) :
    2 * |(num : ℤ) - divideEven num den * den| ≤ den ∧
      (2 * |(num : ℤ) - divideEven num den * den| = den → divideEven num den % 2 = 0) := by
  obtain ⟨q, r, hq, hr, hnum⟩ : ∃ q r, q = num / den ∧ r = num % den ∧ den * q + r = num :=
    ⟨_, _, rfl, rfl, Nat.div_add_mod num den⟩
  have hlt : r < den := hr ▸ Nat.mod_lt num hden
  have hbelow : (num : ℤ) - (q : ℕ) * den = r := by
    rw [← hnum]
    push_cast
    ring
  have habove : (num : ℤ) - (q + 1 : ℕ) * den = -(den - r) := by
    rw [← hnum]
    push_cast
    ring
  have hdown : |(r : ℤ)| = r := abs_of_nonneg (by omega)
  have hup : |-((den : ℤ) - r)| = den - r := by
    rw [abs_neg]
    exact abs_of_nonneg (by omega)
  unfold divideEven
  dsimp only
  rw [← hq, ← hr]
  split
  · rw [hbelow, hdown]
    exact ⟨by omega, fun h => by omega⟩
  split
  · rw [habove, hup]
    exact ⟨by omega, fun h => by omega⟩
  split
  · rw [hbelow, hdown]
    exact ⟨by omega, fun _ => by assumption⟩
  · rw [habove, hup]
    exact ⟨by omega, fun _ => by omega⟩

theorem divideEven_bounds (num den : ℕ) :
    num / den ≤ divideEven num den ∧ divideEven num den ≤ num / den + 1 := by
  unfold divideEven
  dsimp only
  split
  · omega
  split
  · omega
  split <;> omega

namespace Binary64

open Float.Model Float.Model.UnpackedFloat

-- A mantissa whose bits behind the last one are those of a quotient.
structure Shows (em : ExtendedMantissa) (num den : ℕ) : Prop where
  mantissa : em.mantissa = num / den
  accuracy : em.accuracy = accuracyOfFraction (num % den) den

theorem shows_ofMantissaAndAccuracy (num den : ℕ) :
    Shows (.ofMantissaAndAccuracy (num / den) (accuracyOfFraction (num % den) den)) num den := by
  unfold accuracyOfFraction
  split
  · rename_i h
    exact ⟨rfl, (if_pos h).symm⟩
  · rename_i h
    rw [show Accuracy.inexact (compare (2 * (num % den)) den) =
      accuracyOfFraction (num % den) den from (if_neg h).symm]
    constructor
    all_goals
      unfold accuracyOfFraction
      rw [if_neg h]
      cases compare (2 * (num % den)) den <;> rfl

-- The last bit of the mantissa becomes the first one behind it.
theorem Shows.shiftRightOne {em : ExtendedMantissa} {num den : ℕ} (h : Shows em num den)
    (hden : 0 < den) : Shows em.shiftRightOne num (den * 2) := by
  obtain ⟨m, round, sticky⟩ := em
  obtain ⟨hm, haccuracy⟩ := h
  dsimp only at hm
  have hlt : num % den < den := Nat.mod_lt num hden
  have hmod : num % (den * 2) = num % den + den * (m % 2) := by
    rw [hm, Nat.mod_mul]
  refine ⟨?_, ?_⟩
  · dsimp only [ExtendedMantissa.shiftRightOne]
    rw [hm, Nat.div_div_eq_div_mul]
  -- something is behind the bit if there was something behind the mantissa
  have hsticky : (round || sticky) = decide (num % den ≠ 0) := by
    unfold accuracyOfFraction at haccuracy
    split at haccuracy
    · rename_i hzero
      cases round <;> cases sticky <;> simp_all [ExtendedMantissa.accuracy]
    · rename_i hzero
      cases round <;> cases sticky <;> simp_all [ExtendedMantissa.accuracy]
  have hshift : ExtendedMantissa.shiftRightOne ⟨m, round, sticky⟩ =
      ⟨m / 2, decide (m % 2 = 1), decide (num % den ≠ 0)⟩ := by
    rw [← hsticky]
    simp only [ExtendedMantissa.shiftRightOne, ExtendedMantissa.mk.injEq, true_and, and_true]
    obtain hm2 | hm2 := Nat.mod_two_eq_zero_or_one m <;> rw [hm2] <;> rfl
  rw [hshift, hmod]
  unfold accuracyOfFraction
  generalize num % den = r at *
  obtain hm2 | hm2 := Nat.mod_two_eq_zero_or_one m
  · rw [hm2]
    by_cases hr : r = 0
    · simp [hr, ExtendedMantissa.accuracy]
    · have hcompare : compare (2 * r) (den * 2) = .lt := by
        rw [compare_lt_iff_lt]
        omega
      simp [hr, ExtendedMantissa.accuracy, hcompare]
  · rw [hm2]
    by_cases hr : r = 0
    · have hcompare : compare (2 * den) (den * 2) = .eq := by
        rw [compare_eq_iff_eq]
        omega
      simp [hr, hden.ne', ExtendedMantissa.accuracy, hcompare]
    · have hcompare : compare (2 * (r + den)) (den * 2) = .gt := by
        rw [compare_gt_iff_gt]
        omega
      simp [hr, ExtendedMantissa.accuracy, hcompare]

theorem Shows.shiftRight {em : ExtendedMantissa} {num den : ℕ} (h : Shows em num den)
    (hden : 0 < den) (n : ℕ) : Shows (em >>> n) num (den * 2 ^ n) := by
  induction n with
  | zero => rwa [pow_zero, mul_one]
  | succ n ih =>
    rw [pow_succ, ← mul_assoc]
    exact ih.shiftRightOne (Nat.mul_pos hden (Nat.two_pow_pos n))

-- Such a mantissa is rounded to the nearest whole number of the quotient.
theorem Shows.rounded {em : ExtendedMantissa} {num den : ℕ} (h : Shows em num den)
    (hden : 0 < den) : em.roundedMantissa = divideEven num den := by
  rw [ExtendedMantissa.roundedMantissa, h.mantissa, h.accuracy]
  unfold accuracyOfFraction divideEven
  dsimp only
  by_cases hzero : num % den = 0
  · rw [if_pos hzero, hzero, if_pos hden]
    rfl
  · rw [if_neg hzero]
    obtain hlt | heq | hgt := lt_trichotomy (2 * (num % den)) den
    · rw [compare_lt_iff_lt.2 hlt, if_pos hlt]
      rfl
    · rw [compare_eq_iff_eq.2 heq, if_neg (by omega), if_neg (by omega)]
      dsimp only [Accuracy.roundToNearestEven]
      split <;> omega
    · rw [compare_gt_iff_gt.2 hgt, if_neg (by omega), if_pos hgt]
      rfl

-- The mantissas and exponents that rounding gives: those of the finite numbers, and the exponents
-- beyond them.
structure Placed (m : ℕ) (e : ℤ) : Prop extends Sized m e where
  normal : -1074 < e → 2 ^ 52 ≤ m

inductive Canonical : UnpackedFloat → Prop
  | zero (s : Sign) : Canonical (.zero s)
  | finite {s : Sign} {m : ℕ} {e : ℤ} {hm : 0 < m} (h : Placed m e) : Canonical (.finite s m e hm)

-- A number as a multiple of the least positive one.
def units : UnpackedFloat → ℤ
  | .finite s m e _ => s.apply (m * 2 ^ (e + 1074).toNat)
  | _ => 0

theorem units_zero (s : Sign) : units (.zero s) = 0 :=
  rfl

theorem units_finite (s : Sign) {m : ℕ} (e : ℤ) (hm : 0 < m) :
    units (.finite s m e hm) = s.apply (m * 2 ^ (e + 1074).toNat) :=
  rfl

-- The exponent at which a mantissa is rounded to at most 53 bits.
def target (m : ℕ) (e : ℤ) : ℤ :=
  max (m.log2 + e - 52) (-1074)

theorem targetExponent_eq (m : ℕ) (e : ℤ) :
    Format.binary64.targetExponent (totalExponent m e) = target m e := by
  have hleast : Format.binary64.minExponent = -1074 := rfl
  have hbits : (Format.binary64.mantissaBits : ℤ) = 53 := rfl
  rw [Format.targetExponent, totalExponent, hleast, hbits, target]
  congr 1
  ring

theorem shiftToTargetExponent_eq (m : ℕ) (e : ℤ) (a : Accuracy) :
    shiftToTargetExponent Format.binary64 m e a =
      (ExtendedMantissa.ofMantissaAndAccuracy m a >>> (target m e - e).toNat,
        e + (target m e - e).toNat) := by
  unfold shiftToTargetExponent
  rw [targetExponent_eq]
  rfl

-- A mantissa that is too large by one carries into the exponent.
theorem shiftToTargetExponent_small {q : ℕ} (hq : q ≤ 2 ^ 53) {t : ℤ} (ht : -1074 ≤ t) :
    ((shiftToTargetExponent Format.binary64 q t .exact).1.mantissa,
      (shiftToTargetExponent Format.binary64 q t .exact).2) =
      if q = 2 ^ 53 then (2 ^ 52, t + 1) else (q, t) := by
  rw [shiftToTargetExponent_eq]
  dsimp only
  rw [mantissa_shiftRight]
  split
  · rename_i hcarry
    have hlog : q.log2 = 53 := by
      rw [hcarry]
      decide
    have hamount : (target q t - t).toNat = 1 := by
      unfold target
      omega
    rw [hamount, hcarry]
    rfl
  · rename_i hsmall
    have hlog : q.log2 ≤ 52 := by
      by_cases hzero : q = 0
      · rw [hzero]
        decide
      · have := (Nat.log2_lt hzero).2 (by omega : q < 2 ^ 53)
        omega
    have hamount : (target q t - t).toNat = 0 := by
      unfold target
      omega
    rw [hamount, pow_zero]
    simp [ExtendedMantissa.ofMantissaAndAccuracy]

-- A mantissa has at most 53 bits there, and 53 unless the exponent is the least.
theorem shifted_bounds {m : ℕ} {e t : ℤ} (ht : t = target m e) (he : e ≤ t) :
    m / 2 ^ (t - e).toNat < 2 ^ 53 ∧ (-1074 < t → 2 ^ 52 ≤ m / 2 ^ (t - e).toNat) := by
  constructor
  · rw [Nat.div_lt_iff_lt_mul (Nat.two_pow_pos _), ← pow_add]
    refine lt_of_lt_of_le Nat.lt_log2_self (Nat.pow_le_pow_right Nat.two_pos ?_)
    unfold target at ht
    omega
  · intro hlt
    have hlog : m.log2 = 52 + (t - e).toNat := by
      unfold target at ht
      omega
    rw [Nat.le_div_iff_mul_le (Nat.two_pow_pos _), ← pow_add, ← hlog]
    refine Nat.log2_self_le fun hzero => ?_
    have hnone : Nat.log2 0 = 0 := by decide
    rw [hzero] at hlog
    omega

-- A quotient is rounded to the nearest multiple of a power of two that leaves it 53 bits.
theorem roundWithAccuracy_spec (s : Sign) (num : ℕ) {den : ℕ} (hden : 0 < den) {e t : ℤ}
    (ht : t = target (num / den) e) (he : e ≤ t) :
    Canonical (roundWithAccuracy Format.binary64 s (num / den) e
      (accuracyOfFraction (num % den) den)) ∧
    units (roundWithAccuracy Format.binary64 s (num / den) e
      (accuracyOfFraction (num % den) den)) =
      s.apply (divideEven num (den * 2 ^ (t - e).toNat) * 2 ^ (t + 1074).toNat) := by
  have hshows := (shows_ofMantissaAndAccuracy num den).shiftRight hden (t - e).toNat
  have hpos : 0 < den * 2 ^ (t - e).toNat := Nat.mul_pos hden (Nat.two_pow_pos _)
  have hrounded := hshows.rounded hpos
  obtain ⟨hfloor, hceil⟩ := divideEven_bounds num (den * 2 ^ (t - e).toNat)
  rw [← Nat.div_div_eq_div_mul] at hfloor hceil
  have hleast : -1074 ≤ t := ht ▸ le_max_right _ _
  obtain ⟨hmost, hnormal⟩ := shifted_bounds ht he
  have hfirst : shiftToTargetExponent Format.binary64 (num / den) e
      (accuracyOfFraction (num % den) den) =
      (ExtendedMantissa.ofMantissaAndAccuracy (num / den) (accuracyOfFraction (num % den) den) >>>
        (t - e).toNat, t) := by
    rw [shiftToTargetExponent_eq, ← ht]
    congr 1
    omega
  unfold roundWithAccuracy
  rw [hfirst]
  dsimp only
  rw [hrounded]
  generalize divideEven num (den * 2 ^ (t - e).toNat) = q at *
  have hfinal := shiftToTargetExponent_small (by omega : q ≤ 2 ^ 53) hleast
  generalize (shiftToTargetExponent Format.binary64 q t .exact).1.mantissa = m,
    (shiftToTargetExponent Format.binary64 q t .exact).2 = f at hfinal ⊢
  split at hfinal
  · rename_i hcarry
    cases hfinal
    rw [dif_neg (by decide)]
    refine ⟨.finite ⟨⟨by decide, by decide, by omega⟩, fun _ => le_rfl⟩, ?_⟩
    have hpower : (t + 1 + 1074).toNat = (t + 1074).toNat + 1 := by omega
    rw [units_finite, hcarry, hpower, pow_succ]
    congr 1
    push_cast
    ring
  · rename_i hsmall
    cases hfinal
    by_cases hzero : q = 0
    · rw [dif_pos hzero]
      refine ⟨.zero s, ?_⟩
      rw [units_zero, hzero]
      cases s <;> simp [Sign.apply]
    · rw [dif_neg hzero]
      exact ⟨.finite ⟨⟨by omega, by omega, hleast⟩, fun hlt => (hnormal hlt).trans hfloor⟩, rfl⟩

theorem bitLength_natCast {n : ℕ} (hn : n ≠ 0) : bitLength n = n.log2 + 1 := by
  refine le_antisymm (bitLength_le_iff.2 ?_) (lt_bitLength_iff.2 ?_)
  · rw [Nat.abs_cast]
    exact_mod_cast Nat.lt_log2_self
  · rw [Nat.abs_cast]
    exact_mod_cast Nat.log2_self_le hn

theorem log2_mul_two_pow {n : ℕ} (hn : n ≠ 0) (k : ℕ) : (n * 2 ^ k).log2 = n.log2 + k := by
  rw [Nat.log2_eq_iff (Nat.mul_ne_zero hn (Nat.two_pow_pos k).ne'), pow_add,
    (by ring : n.log2 + k + 1 = n.log2 + 1 + k), pow_add 2 (n.log2 + 1)]
  exact ⟨Nat.mul_le_mul_right _ (Nat.log2_self_le hn),
    Nat.mul_lt_mul_of_pos_right Nat.lt_log2_self (Nat.two_pow_pos k)⟩

theorem rounded_divideEven {m c d : ℕ} (h : excess (m * 2 ^ c) = d + c) :
    Rounded (m * 2 ^ c) (divideEven m (2 ^ d) * 2 ^ (d + c)) := by
  obtain ⟨hnear, heven⟩ := divideEven_near m (Nat.two_pow_pos d)
  push_cast at hnear heven
  generalize divideEven m (2 ^ d) = q at *
  have hpos : (0 : ℤ) < 2 ^ c := by positivity
  have hdistance : |(m : ℤ) * 2 ^ c - q * 2 ^ (d + c)| = |(m : ℤ) - q * 2 ^ d| * 2 ^ c := by
    rw [← abs_of_pos hpos, ← abs_mul, abs_of_pos hpos, pow_add]
    congr 1
    ring
  refine ⟨?_, ?_, ?_⟩
  · rw [h]
    exact dvd_mul_left _ _
  · rw [h, hdistance, pow_add, ← mul_assoc]
    exact mul_le_mul_of_nonneg_right hnear hpos.le
  · rw [h, hdistance, pow_add, ← mul_assoc]
    intro htie
    obtain ⟨half, hhalf⟩ := Nat.dvd_of_mod_eq_zero (heven (mul_right_cancel₀ hpos.ne' htie))
    rw [hhalf, pow_succ', ← pow_add]
    exact ⟨half, by push_cast; ring⟩

-- Rounding a number with a sign rounds it to the units.
theorem round_spec (s : Sign) {m : ℕ} (hm : 0 < m) {e : ℤ} (he : -1074 ≤ e) :
    Canonical (round Format.binary64 s m e) ∧
      Rounded (s.apply (m * 2 ^ (e + 1074).toNat)) (units (round Format.binary64 s m e)) := by
  obtain ⟨t, ht⟩ : ∃ t, t = target m e := ⟨_, rfl⟩
  obtain ⟨k, hk⟩ : ∃ k, k = (e - t).toNat := ⟨_, rfl⟩
  have hleast : -1074 ≤ t := ht ▸ le_max_right _ _
  have hlog := log2_mul_two_pow hm.ne' k
  have hshifted : target (m * 2 ^ k) (e - k) = t := by
    rw [ht, target, target, hlog]
    congr 1
    push_cast
    ring
  have hround : round Format.binary64 s m e =
      roundWithAccuracy Format.binary64 s (m * 2 ^ k / 1) (e - k)
        (accuracyOfFraction (m * 2 ^ k % 1) 1) := by
    rw [Nat.div_one, Nat.mod_one, ← Nat.shiftLeft_eq, hk, ht, ← targetExponent_eq]
    rfl
  obtain ⟨hcanonical, hunits⟩ := roundWithAccuracy_spec s (m * 2 ^ k) Nat.one_pos
    (by rw [Nat.div_one, hshifted]) (by omega : e - k ≤ t)
  rw [← hround, one_mul] at hunits
  refine ⟨hround ▸ hcanonical, ?_⟩
  obtain ⟨c, hc⟩ : ∃ c, c = (e - k + 1074).toNat := ⟨_, rfl⟩
  have hd : (t - (e - k)).toNat + c = (t + 1074).toNat := by omega
  have hvalue : (m : ℤ) * 2 ^ (e + 1074).toNat = (m * 2 ^ k : ℕ) * 2 ^ c := by
    push_cast
    rw [mul_assoc, ← pow_add]
    congr 2
    omega
  have hexcess : excess ((m * 2 ^ k : ℕ) * 2 ^ c) = (t - (e - k)).toNat + c := by
    have hne : m * 2 ^ k ≠ 0 := Nat.mul_ne_zero hm.ne' (Nat.two_pow_pos k).ne'
    have hlength : bitLength ((m * 2 ^ k : ℕ) * 2 ^ c) = (m * 2 ^ k).log2 + c + 1 := by
      rw [← log2_mul_two_pow hne c, ← bitLength_natCast
        (Nat.mul_ne_zero hne (Nat.two_pow_pos c).ne')]
      push_cast
      rfl
    rw [excess, hlength]
    unfold target at hshifted
    omega
  have hrounded := rounded_divideEven hexcess
  rw [← hvalue, hd] at hrounded
  rw [hunits]
  cases s with
  | positive => exact hrounded
  | negative => exact hrounded.neg

theorem Canonical.isFinite {u : UnpackedFloat} (h : Canonical u) : u.isFinite = true := by
  cases h <;> rfl

-- Half the distance between the largest finite numbers, and the end of the finite numbers.

def halfStep : ℤ :=
  2 ^ 2044

def ceiling : ℤ :=
  2 ^ 54 * halfStep

theorem halfStep_pos : 0 < halfStep :=
  pow_pos two_pos _

theorem two_mul_halfStep : (2 : ℤ) ^ 2045 = 2 * halfStep :=
  pow_succ' 2 2044

theorem ceiling_eq (m n : ℕ) (h : m + n = 54 + 2044) : ceiling = 2 ^ m * 2 ^ n := by
  rw [← pow_add, h, pow_add]
  rfl

theorem ceiling_pos : 0 < ceiling :=
  mul_pos (pow_pos two_pos _) halfStep_pos

theorem two_pow_dvd_ceiling {n : ℕ} (h : n ≤ 54 + 2044) : 2 ^ n ∣ ceiling := by
  rw [ceiling_eq n (54 + 2044 - n) (by omega)]
  exact dvd_mul_right _ _

theorem lt_of_two_pow_lt_ceiling {n : ℕ} (h : 2 ^ n < ceiling) : n < 54 + 2044 := by
  by_contra hge
  have hle : (2 : ℤ) ^ (54 + 2044) ≤ 2 ^ n := pow_le_pow_right₀ one_le_two (not_lt.1 hge)
  rw [pow_add] at hle
  exact h.not_ge hle

theorem fits_largest : Fits (ceiling - 2 * halfStep) := by
  have hpower : (2 : ℤ) ^ (53 + 2045) = 2 ^ 53 * 2 ^ 2045 := pow_add 2 53 2045
  have hlargest : ceiling - 2 * halfStep = (2 ^ 53 - 1) * 2 ^ 2045 := by
    rw [ceiling, two_mul_halfStep]
    ring
  have hpos : (0 : ℤ) < 2 ^ 2045 := by positivity
  rw [hlargest]
  refine fits_of_dvd (dvd_mul_left _ _) ?_
  rw [hpower]
  generalize (2 : ℤ) ^ 2045 = unit at *
  rw [abs_of_nonneg (mul_nonneg (by norm_num) hpos.le)]
  linarith

-- No number with 53 bits lies between the largest one and the end.
theorem abs_le_largest {q : ℤ} (hq : Fits q) (hlt : |q| < ceiling) :
    |q| ≤ ceiling - 2 * halfStep := by
  obtain hle | hgt := le_or_gt (bitLength q) 2097
  · have hsmall := bitLength_le_iff.1 hle
    have hhalf : ceiling = 2 ^ 1 * 2 ^ 2097 := ceiling_eq 1 2097 rfl
    have hpower : (2 : ℤ) ^ 2045 ≤ 2 ^ 2097 := pow_le_pow_right₀ one_le_two (by omega)
    rw [two_mul_halfStep] at hpower
    generalize (2 : ℤ) ^ 2097 = power at *
    linarith
  · have hdvd : (2 : ℤ) ^ 2045 ∣ q := (pow_dvd_pow 2 (by unfold excess; omega)).trans hq
    have hceiling : (2 : ℤ) ^ 2045 ∣ ceiling := two_pow_dvd_ceiling (by omega)
    have hle := Int.le_of_dvd (sub_pos.2 hlt) (dvd_sub hceiling ((dvd_abs _ _).2 hdvd))
    rw [two_mul_halfStep] at hle
    linarith

-- What is less than half way beyond the largest finite number is rounded down to it.
theorem lt_ceiling_of_rounded {z r : ℤ} (h : Rounded z r) (hz : z < ceiling - halfStep) :
    r < ceiling := by
  have hpos := halfStep_pos
  by_contra hge
  have hnear := h.near_of_fits fits_largest
  obtain hle | hlt := le_or_gt z (ceiling - 2 * halfStep)
  · have := h.le_of_le fits_largest hle
    linarith
  · rw [abs_of_nonpos (by linarith), abs_of_nonneg (by linarith)] at hnear
    linarith

theorem abs_lt_ceiling_of_rounded {z r : ℤ} (h : Rounded z r) (hz : |z| < ceiling - halfStep) :
    |r| < ceiling := by
  obtain ⟨hlow, hhigh⟩ := abs_lt.1 hz
  have hneg := lt_ceiling_of_rounded h.neg (by linarith)
  exact abs_lt.2 ⟨by linarith, lt_ceiling_of_rounded h hhigh⟩

theorem abs_apply (s : Sign) (z : ℤ) : |s.apply z| = |z| := by
  cases s
  · exact abs_neg z
  · rfl

theorem Placed.abs_units_lt_iff {m : ℕ} {e : ℤ} (h : Placed m e) (s : Sign) (hm : 0 < m) :
    |units (.finite s m e hm)| < ceiling ↔ e ≤ 971 := by
  have hleast := h.least
  rw [units_finite, abs_apply, abs_of_nonneg (by positivity)]
  constructor
  · intro hlt
    by_contra hbeyond
    have hnormal : (2 : ℤ) ^ 52 ≤ m := by exact_mod_cast h.normal (by omega)
    refine hlt.not_ge ?_
    calc ceiling = 2 ^ 52 * 2 ^ 2046 := ceiling_eq 52 2046 rfl
      _ ≤ (m : ℤ) * 2 ^ (e + 1074).toNat :=
        mul_le_mul hnormal (pow_le_pow_right₀ one_le_two (by omega)) (by positivity) (by positivity)
  · intro hle
    have hmantissa : (m : ℤ) < 2 ^ 53 := by exact_mod_cast h.mantissa
    calc (m : ℤ) * 2 ^ (e + 1074).toNat < 2 ^ 53 * 2 ^ (e + 1074).toNat :=
          mul_lt_mul_of_pos_right hmantissa (by positivity)
      _ ≤ 2 ^ 53 * 2 ^ 2045 :=
        mul_le_mul_of_nonneg_left (pow_le_pow_right₀ one_le_two (by omega)) (by positivity)
      _ = ceiling := (ceiling_eq 53 2045 rfl).symm

-- A number is read off the fields that it is packed into.
theorem unpack_packComponents (s : Sign) {e m : ℕ} (he : e < 2047) (hm : m < 2 ^ 52) :
    ∀ c, c = packComponents Format.binary64 s (BitVec.ofNat 11 e) (BitVec.ofNat 52 m) →
      (e ≠ 0 → ∃ hpos, UnpackedFloat.unpack Format.binary64 c =
        .finite s (2 ^ 52 + m) (e - 1075) hpos) ∧
      (e = 0 → ∀ hpos : 0 < m,
        UnpackedFloat.unpack Format.binary64 c = .finite s m (-1074) hpos) := by
  intro c hc
  have hsign : Sign.ofBitVec (unpackSign c) = s := by
    rw [hc, unpackSign_packComponents, ofBitVec_toBitVec]
  have hexponent : (unpackExponent c).toNat = e := by
    rw [hc, unpackExponent_packComponents]
    exact Nat.mod_eq_of_lt (by omega)
  have hmantissa : (unpackMantissa c).toNat = m := by
    rw [hc, unpackMantissa_packComponents]
    exact Nat.mod_eq_of_lt hm
  have hones : unpackExponent c ≠ -1#11 := fun h => by
    rw [h] at hexponent
    have : (-1#11).toNat = 2047 := by decide
    omega
  have hleading := toNat_leading (unpackMantissa c)
  rw [hmantissa] at hleading
  unfold UnpackedFloat.unpack
  dsimp only
  rw [if_neg hones]
  constructor
  · intro hne
    have hzero : unpackExponent c ≠ 0#11 := fun h => by
      rw [h] at hexponent
      exact hne hexponent.symm
    rw [if_neg hzero]
    exact ⟨by omega, finite_congr _ _ hsign hleading (by rw [hexponent]; rfl)⟩
  · intro hzero hpos
    have hempty : unpackMantissa c ≠ 0#52 := fun h => by
      rw [h] at hmantissa
      have : (0#52).toNat = 0 := rfl
      omega
    have hleast : unpackExponent c = 0#11 :=
      BitVec.eq_of_toNat_eq (by rw [hexponent, hzero]; rfl)
    rw [if_pos hleast, dif_neg hempty]
    exact finite_congr _ _ hsign hmantissa (by rw [hexponent, hzero]; rfl)

-- A finite number stays what it is when it is packed,
theorem unpack_pack_legal (s : Sign) {m : ℕ} {e : ℤ} (hm : 0 < m) (h : Legal m e) :
    (Float.Model.pack (.finite s m e hm)).unpack = .finite s m e hm := by
  obtain ⟨hmantissa, hleast, hgreatest, hnormal⟩ := h
  have hbias : (Format.binary64.exponentBias : ℤ) = 1023 := rfl
  have hlength : Format.binary64.mantissaBits = 53 := rfl
  change UnpackedFloat.unpack Format.binary64 (UnpackedFloat.pack Format.binary64
    (.finite s m e hm)) = .finite s m e hm
  delta UnpackedFloat.pack
  dsimp only
  rw [if_neg (by rw [hbias]; omega), hlength]
  by_cases hlog : m.log2 + 1 = 53
  · have hlow : 2 ^ 52 ≤ m := by
      have := Nat.log2_self_le hm.ne'
      rwa [(by omega : m.log2 = 52)] at this
    have hfield : BitVec.ofNat 52 m = BitVec.ofNat 52 (m - 2 ^ 52) := by
      apply BitVec.eq_of_toNat_eq
      rw [BitVec.toNat_ofNat, BitVec.toNat_ofNat]
      omega
    rw [if_pos hlog, hfield, hbias]
    obtain ⟨hpos, hunpack⟩ := (unpack_packComponents s (by omega)
      (by omega : m - 2 ^ 52 < 2 ^ 52) _ rfl).1 (by omega : (e + 1023 + (52 : ℕ)).toNat ≠ 0)
    rw [hunpack]
    exact finite_congr _ _ rfl (by omega) (by omega)
  · have hsmall : m < 2 ^ 52 := by
      have := (Nat.log2_lt hm.ne').2 hmantissa
      exact (Nat.log2_lt hm.ne').1 (by omega)
    have he : e = -1074 := by
      by_contra hne
      have := hnormal (by omega)
      omega
    rw [if_neg hlog, he]
    exact (unpack_packComponents s (by decide : 0 < 2047) hsmall _ rfl).2 rfl hm

-- and beyond the exponents of these it becomes infinite.
theorem unpack_pack_beyond (s : Sign) {m : ℕ} {e : ℤ} (hm : 0 < m) (h : 971 < e) :
    (Float.Model.pack (.finite s m e hm)).unpack = .infinity s := by
  have hbias : (Format.binary64.exponentBias : ℤ) = 1023 := rfl
  have hpack : UnpackedFloat.pack Format.binary64 (.finite s m e hm) =
      UnpackedFloat.pack Format.binary64 (.infinity s) := by
    delta UnpackedFloat.pack
    dsimp only
    rw [if_pos (by rw [hbias]; omega)]
  change UnpackedFloat.unpack Format.binary64 (UnpackedFloat.pack Format.binary64 _) = _
  rw [hpack]
  cases s <;> rfl

-- So a rounded number is finite if it is small enough, and keeps its units then.
theorem Canonical.unpack_pack {u : UnpackedFloat} (h : Canonical u) :
    if |units u| < ceiling then (Float.Model.pack u).unpack = u
    else (Float.Model.pack u).unpack.isInf = true := by
  cases h with
  | zero s =>
    rw [if_pos (by rw [units_zero, abs_zero]; exact ceiling_pos)]
    exact Double.Twins.unpack_pack_zero s
  | @finite s m e hm h =>
    by_cases hlt : |units (.finite s m e hm)| < ceiling
    · rw [if_pos hlt]
      have hlegal : Legal m e :=
        ⟨h.mantissa, h.least, (h.abs_units_lt_iff s hm).1 hlt, h.normal⟩
      exact unpack_pack_legal s hm hlegal
    · rw [if_neg hlt]
      rw [unpack_pack_beyond s hm (not_le.1 fun hle => hlt ((h.abs_units_lt_iff s hm).2 hle))]
      rfl

theorem scaled_pos {m : ℕ} (hm : 0 < m) (k : ℕ) : (0 : ℤ) < m * 2 ^ k := by
  positivity

theorem Canonical.fits {u : UnpackedFloat} (h : Canonical u) : Fits (units u) := by
  cases h with
  | zero s => exact dvd_zero _
  | @finite s m e hm h =>
    have hfits : Fits (m * 2 ^ (e + 1074).toNat) := by
      refine fits_of_dvd (dvd_mul_left (2 ^ (e + 1074).toNat) _) ?_
      have hmantissa : (m : ℤ) ≤ 2 ^ 53 := by exact_mod_cast h.mantissa.le
      rw [abs_of_nonneg (by positivity), pow_add]
      exact mul_le_mul_of_nonneg_right hmantissa (by positivity)
    cases s with
    | positive => exact hfits
    | negative => exact hfits.neg

theorem canonical_of_isFinite {b : BitVec Format.binary64.numBits}
    (h : (UnpackedFloat.unpack Format.binary64 b).isFinite = true) :
    Canonical (UnpackedFloat.unpack Format.binary64 b) ∧
      |units (UnpackedFloat.unpack Format.binary64 b)| < ceiling := by
  obtain hnot | ⟨-, -, s, hzero⟩ | ⟨s, m, e, hm, hfinite, hlegal⟩ := unpack_cases b
  · rw [h] at hnot
    cases hnot
  · rw [hzero, units_zero, abs_zero]
    exact ⟨.zero s, ceiling_pos⟩
  · have hplaced : Placed m e := ⟨hlegal.sized hm, hlegal.normal⟩
    rw [hfinite]
    exact ⟨.finite hplaced, (hplaced.abs_units_lt_iff s hm).2 hlegal.greatest⟩

theorem normalize_spec (z : ℤ) {e : ℤ} (he : -1074 ≤ e) (t : Sign) :
    Canonical (UnpackedFloat.normalize Format.binary64 z e t) ∧
      Rounded (z * 2 ^ (e + 1074).toNat)
        (units (UnpackedFloat.normalize Format.binary64 z e t)) := by
  unfold UnpackedFloat.normalize
  obtain hneg | rfl | hpos := lt_trichotomy z 0
  · rw [compare_lt_iff_lt.2 hneg]
    obtain ⟨hcanonical, hrounded⟩ := round_spec .negative (by omega : 0 < (-z).toNat) he
    refine ⟨hcanonical, ?_⟩
    rwa [Int.toNat_of_nonneg (by omega), Sign.apply, neg_mul, neg_neg] at hrounded
  · rw [zero_mul]
    exact ⟨.zero t, Fits.rounded (dvd_zero _)⟩
  · rw [compare_gt_iff_gt.2 hpos]
    obtain ⟨hcanonical, hrounded⟩ := round_spec .positive (by omega : 0 < z.toNat) he
    refine ⟨hcanonical, ?_⟩
    rwa [Int.toNat_of_nonneg (by omega), Sign.apply] at hrounded

-- At a lower exponent a number has the same units.
theorem apply_scaled (s : Sign) (m : ℕ) {e f : ℤ} (hf : -1074 ≤ f) (h : f ≤ e) :
    s.apply (m <<< (e - f).toNat : ℕ) * 2 ^ (f + 1074).toNat =
      s.apply (m * 2 ^ (e + 1074).toNat) := by
  have hpower : (e + 1074).toNat = (e - f).toNat + (f + 1074).toNat := by omega
  rw [Nat.shiftLeft_eq, hpower, pow_add]
  push_cast
  cases s with
  | positive => exact mul_assoc _ _ _
  | negative =>
    simp only [Sign.apply]
    ring

-- A sum is rounded once.
theorem add_spec {u v : UnpackedFloat} (hu : Canonical u) (hv : Canonical v) :
    Canonical (UnpackedFloat.add Format.binary64 u v) ∧
      Rounded (units u + units v) (units (UnpackedFloat.add Format.binary64 u v)) := by
  cases hu with
  | zero s =>
    rw [units_zero, zero_add]
    cases hv with
    | zero t =>
      have hzero : ∃ r, UnpackedFloat.add Format.binary64 (.zero s) (.zero t) = .zero r := by
        cases s <;> cases t <;> exact ⟨_, rfl⟩
      obtain ⟨r, hr⟩ := hzero
      rw [hr]
      exact ⟨.zero r, Fits.rounded (dvd_zero _)⟩
    | finite h => exact ⟨.finite h, (Canonical.finite h).fits.rounded⟩
  | @finite s m e hm h =>
    cases hv with
    | zero t =>
      rw [units_zero, add_zero]
      exact ⟨.finite h, (Canonical.finite h).fits.rounded⟩
    | @finite t n f hn h' =>
      have hleast : -1074 ≤ min e f := le_min h.least h'.least
      have hspec := normalize_spec (s.apply (m <<< (e - min e f).toNat : ℕ) +
        t.apply (n <<< (f - min e f).toNat : ℕ)) hleast .positive
      rw [add_mul, apply_scaled s m hleast (min_le_left e f),
        apply_scaled t n hleast (min_le_right e f)] at hspec
      exact hspec

theorem apply_neg (s : Sign) (z : ℤ) : (-s).apply z = -s.apply z := by
  cases s with
  | positive => rfl
  | negative => exact (neg_neg z).symm

-- A difference is a sum.
theorem sub_eq_add (u v : UnpackedFloat) :
    UnpackedFloat.sub Format.binary64 u v = UnpackedFloat.add Format.binary64 u v.neg := by
  cases u with
  | notANumber => cases v <;> rfl
  | infinity s => cases v <;> rfl
  | zero s => cases v <;> rfl
  | finite s =>
    cases v with
    | finite t =>
      dsimp only [UnpackedFloat.sub, UnpackedFloat.add, UnpackedFloat.neg]
      rw [apply_neg, sub_eq_add_neg]
    | _ => rfl

end Binary64

end BarReplay.Decimal
