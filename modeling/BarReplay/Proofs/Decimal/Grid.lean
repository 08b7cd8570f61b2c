import Mathlib.Algebra.Order.Ring.Abs
import Mathlib.Algebra.Order.Ring.Int
import Mathlib.Data.Int.Order.Lemmas
import Mathlib.Data.Nat.Size
import Mathlib.Tactic.Linarith
import Mathlib.Tactic.Ring

namespace BarReplay.Decimal

-- Whole numbers that are rounded to 53 binary digits. A double is such a number of the least
-- positive ones.

def bitLength (z : ℤ) : ℕ :=
  z.natAbs.size

theorem bitLength_le_iff {z : ℤ} {n : ℕ} : bitLength z ≤ n ↔ |z| < 2 ^ n := by
  rw [bitLength, Nat.size_le, Int.abs_eq_natAbs]
  exact_mod_cast Iff.rfl

theorem lt_bitLength_iff {z : ℤ} {n : ℕ} : n < bitLength z ↔ 2 ^ n ≤ |z| := by
  rw [← not_le, bitLength_le_iff, not_lt]

theorem bitLength_le_of_abs_le {y z : ℤ} (h : |y| ≤ |z|) : bitLength y ≤ bitLength z :=
  bitLength_le_iff.2 (lt_of_le_of_lt h (bitLength_le_iff.1 le_rfl))

-- The digits that are too many.
def excess (z : ℤ) : ℕ :=
  bitLength z - 53

theorem abs_lt_excess (z : ℤ) : |z| < 2 ^ (53 + excess z) :=
  bitLength_le_iff.1 (by unfold excess; omega)

theorem le_abs_of_excess {z : ℤ} (h : excess z ≠ 0) : 2 ^ (52 + excess z) ≤ |z| :=
  lt_bitLength_iff.1 (by unfold excess at h ⊢; omega)

-- No more than 53 digits are left when the zeros at the end are left out.
def Fits (z : ℤ) : Prop :=
  2 ^ excess z ∣ z

theorem fits_of_dvd {z : ℤ} {c : ℕ} (hc : 2 ^ c ∣ z) (hz : |z| ≤ 2 ^ (53 + c)) : Fits z := by
  obtain hlt | heq := hz.lt_or_eq
  · have hlength := bitLength_le_iff.2 hlt
    exact (pow_dvd_pow 2 (by unfold excess; omega)).trans hc
  · have hlength : bitLength z ≤ 54 + c := by
      rw [bitLength_le_iff, heq]
      exact pow_lt_pow_right₀ one_lt_two (by omega)
    refine (pow_dvd_pow 2 (by unfold excess; omega : excess z ≤ 53 + c)).trans ?_
    rw [← heq]
    exact (abs_dvd_abs _ _).1 (by rw [abs_abs])

theorem Fits.neg {z : ℤ} (h : Fits z) : Fits (-z) := by
  unfold Fits excess bitLength at *
  rwa [Int.natAbs_neg, dvd_neg]

-- A whole number and the nearest one with 53 digits; of two that are equally near, the one
-- with the even last digit.
structure Rounded (z r : ℤ) : Prop where
  grid : 2 ^ excess z ∣ r
  near : 2 * |z - r| ≤ 2 ^ excess z
  even : 2 * |z - r| = 2 ^ excess z → 2 ^ (excess z + 1) ∣ r

theorem Fits.rounded {z : ℤ} (h : Fits z) : Rounded z z := by
  have hdistance : 2 * |z - z| = 0 := by rw [sub_self, abs_zero, mul_zero]
  have hpos : (0 : ℤ) < 2 ^ excess z := by positivity
  exact ⟨h, hdistance ▸ hpos.le, fun hzero => absurd (hdistance.symm.trans hzero) hpos.ne⟩

namespace Rounded

variable {z r : ℤ}

theorem eq_of_dvd (h : Rounded z r) (hz : 2 ^ excess z ∣ z) : r = z := by
  have hpos : (0 : ℤ) < 2 ^ excess z := by positivity
  have hzero := Int.eq_zero_of_abs_lt_dvd (dvd_sub hz h.grid) (by have := h.near; linarith)
  linarith

-- What has 53 digits is not changed.
theorem eq_of_fits (h : Rounded z r) (hz : Fits z) : r = z :=
  h.eq_of_dvd hz

theorem excess_pos (h : Rounded z r) (hne : z ≠ r) : excess z ≠ 0 := by
  intro hzero
  refine hne (h.eq_of_dvd ?_).symm
  rw [hzero, pow_zero]
  exact one_dvd z

theorem neg (h : Rounded z r) : Rounded (-z) (-r) := by
  have hexcess : excess (-z) = excess z := by
    rw [excess, excess, bitLength, bitLength, Int.natAbs_neg]
  have hdistance : |-z - -r| = |z - r| := by
    rw [← abs_neg (z - r)]
    congr 1
    ring
  refine ⟨?_, ?_, ?_⟩
  · rw [hexcess, dvd_neg]
    exact h.grid
  · rw [hexcess, hdistance]
    exact h.near
  · rw [hexcess, hdistance, dvd_neg]
    exact h.even

-- Nothing with as few digits at the end is nearer,
theorem near_of_dvd (h : Rounded z r) {d : ℤ} (hd : 2 ^ excess z ∣ d) : |z - r| ≤ |z - d| := by
  by_cases heq : d = r
  · rw [heq]
  -- two different places are apart by the distance of neighbours at least
  have hapart : 2 ^ excess z ≤ |d - r| :=
    Int.le_of_dvd (abs_pos.2 (sub_ne_zero.2 heq)) ((dvd_abs _ _).2 (dvd_sub hd h.grid))
  have htriangle : |d - r| ≤ |z - d| + |z - r| := by
    rw [abs_sub_comm z d]
    exact abs_sub_le d z r
  have hnear := h.near
  linarith

-- and nothing with 53 digits.
theorem near_of_fits (h : Rounded z r) {d : ℤ} (hd : Fits d) : |z - r| ≤ |z - d| := by
  obtain hle | hlt := le_or_gt (excess z) (excess d)
  · exact h.near_of_dvd ((pow_dvd_pow 2 hle).trans hd)
  -- the power of two at the lower end is between the two
  have hsmall : |d| < 2 ^ (52 + excess z) :=
    (abs_lt_excess d).trans_le (pow_le_pow_right₀ one_le_two (by omega))
  have hlarge : 2 ^ (52 + excess z) ≤ |z| := le_abs_of_excess (by omega)
  have hdvd : (2 : ℤ) ^ excess z ∣ 2 ^ (52 + excess z) := pow_dvd_pow 2 (by omega)
  generalize (2 : ℤ) ^ (52 + excess z) = power at *
  obtain ⟨hlow, hhigh⟩ := abs_lt.1 hsmall
  obtain hz | hz := abs_cases z
  · have hfirst := h.near_of_dvd hdvd
    rw [abs_of_nonneg (by linarith : 0 ≤ z - power)] at hfirst
    rw [abs_of_nonneg (by linarith : 0 ≤ z - d)]
    linarith
  · have hfirst := h.near_of_dvd (dvd_neg.2 hdvd)
    rw [abs_of_nonpos (by linarith : z - -power ≤ 0)] at hfirst
    rw [abs_of_nonpos (by linarith : z - d ≤ 0)]
    linarith

theorem error_le_right {x y : ℤ} (h : Rounded (x + y) r) (hx : Fits x) : |x + y - r| ≤ |y| := by
  have hnear := h.near_of_fits hx
  rwa [add_sub_cancel_left] at hnear

-- Zeros at the end are kept.
theorem dvd (h : Rounded z r) {c : ℕ} (hc : 2 ^ c ∣ z) : 2 ^ c ∣ r := by
  obtain hle | hlt := le_or_gt c (excess z)
  · exact (pow_dvd_pow 2 hle).trans h.grid
  · rw [h.eq_of_dvd ((pow_dvd_pow 2 hlt.le).trans hc)]
    exact hc

-- The error lies below the last digit: a tie goes to the even one.
theorem error_apart (h : Rounded z r) (hne : z ≠ r) : 2 ^ (bitLength (z - r) + 1) ∣ r := by
  obtain ⟨k, hk⟩ := Nat.exists_eq_succ_of_ne_zero (h.excess_pos hne)
  have hpower : (2 : ℤ) ^ (k + 1) = 2 * 2 ^ k := pow_succ' 2 k
  obtain hlt | heq := h.near.lt_or_eq
  · have hlength : bitLength (z - r) ≤ k := by
      rw [bitLength_le_iff]
      rw [hk, Nat.succ_eq_add_one, hpower] at hlt
      linarith
    exact (pow_dvd_pow 2 (by omega)).trans h.grid
  · have hlength : bitLength (z - r) ≤ k + 1 := by
      rw [bitLength_le_iff, hpower]
      rw [hk, Nat.succ_eq_add_one, hpower] at heq
      have : (0 : ℤ) < 2 ^ k := by positivity
      linarith
    exact (pow_dvd_pow 2 (by omega)).trans (h.even heq)

-- It is small against the number.
theorem error_small (h : Rounded z r) (hne : z ≠ r) : 2 ^ 53 * |z - r| ≤ |z| := by
  have hlarge := le_abs_of_excess (h.excess_pos hne)
  have hnear := h.near
  rw [pow_add] at hlarge
  linarith

theorem abs_le_two_mul (h : Rounded z r) : |z| ≤ 2 * |r| := by
  obtain rfl | hne := eq_or_ne z r
  · have := abs_nonneg z
    linarith
  · have hsmall := h.error_small hne
    have hsplit := abs_sub_abs_le_abs_sub z r
    have := abs_nonneg (z - r)
    linarith

-- Rounding does not go beyond a number with 53 digits.
theorem le_of_le (h : Rounded z r) {d : ℤ} (hd : Fits d) (hle : z ≤ d) : r ≤ d := by
  have hnear := h.near_of_fits hd
  by_contra hlt
  rw [abs_of_nonpos (by linarith : z - r ≤ 0), abs_of_nonpos (by linarith : z - d ≤ 0)] at hnear
  linarith

theorem le_of_ge (h : Rounded z r) {d : ℤ} (hd : Fits d) (hle : d ≤ z) : d ≤ r := by
  have hneg := h.neg.le_of_le hd.neg (neg_le_neg hle)
  linarith

end Rounded

-- The rounded sum of two numbers less the larger of them, and what is then missing of the
-- smaller one, have 53 digits themselves: they are found without rounding.
section Splitting

variable {a b s : ℤ}

theorem Rounded.rest_fits (h : Rounded (a + b) s) (ha : Fits a) (hb : Fits b) (hab : |b| ≤ |a|) :
    Fits (b - (s - a)) := by
  have hlength := bitLength_le_of_abs_le hab
  have hsum : 2 ^ excess b ∣ a + b :=
    dvd_add ((pow_dvd_pow 2 (by unfold excess; omega)).trans ha) hb
  have hrest : b - (s - a) = a + b - s := by ring
  rw [hrest]
  exact fits_of_dvd (dvd_sub hsum (h.dvd hsum))
    ((h.error_le_right ha).trans (abs_lt_excess b).le)

theorem Rounded.gain_fits (h : Rounded (a + b) s) (ha : Fits a) (hb : Fits b) (hab : |b| ≤ |a|) :
    Fits (s - a) := by
  by_cases hexact : a + b = s
  · rwa [← hexact, add_sub_cancel_left]
  have hpos := h.excess_pos hexact
  have hnear := h.near
  have htriangle : |s - a| ≤ |b| + |a + b - s| := by
    have hsplit : s - a = b - (a + b - s) := by ring
    rw [hsplit]
    exact abs_sub b _
  -- the smaller one has digits below those of the sum
  have hsmall : excess b < excess (a + b) := by
    by_contra hle
    refine hexact (h.eq_of_dvd (dvd_add ?_ ?_)).symm
    · have hlength := bitLength_le_of_abs_le hab
      exact (pow_dvd_pow 2 (by unfold excess at *; omega)).trans ha
    · exact (pow_dvd_pow 2 (by omega)).trans hb
  obtain hle | hlt := le_or_gt (excess (a + b)) (excess a)
  · refine fits_of_dvd (dvd_sub h.grid ((pow_dvd_pow 2 hle).trans ha)) ?_
    have hb' : |b| < 2 ^ (52 + excess (a + b)) :=
      (abs_lt_excess b).trans_le (pow_le_pow_right₀ one_le_two (by omega))
    have hpower : (2 : ℤ) ^ (53 + excess (a + b)) = 2 ^ (52 + excess (a + b)) +
        2 ^ (52 + excess (a + b)) := by
      rw [← two_mul, ← pow_succ']
      congr 1
      omega
    have hone : (2 : ℤ) ^ excess (a + b) ≤ 2 ^ (52 + excess (a + b)) :=
      pow_le_pow_right₀ one_le_two (by omega)
    have hb'' := abs_nonneg b
    linarith
  · -- the sum has one digit more than the larger one
    have hdouble : |a + b| < 2 ^ (54 + excess a) := by
      have hpower : (2 : ℤ) ^ (54 + excess a) = 2 ^ (53 + excess a) + 2 ^ (53 + excess a) := by
        rw [← two_mul, ← pow_succ']
        congr 1
        omega
      have ha' := abs_lt_excess a
      have hadd := abs_add_le a b
      linarith
    have hexcess : excess (a + b) = excess a + 1 := by
      have hmost := bitLength_le_iff.2 hdouble
      unfold excess at *
      omega
    have hroom : |a| + 2 ^ excess a ≤ 2 ^ (53 + excess a) := by
      have hdvd : (2 : ℤ) ^ excess a ∣ 2 ^ (53 + excess a) - |a| :=
        dvd_sub (pow_dvd_pow 2 (by omega)) ((dvd_abs _ _).2 ha)
      have hle := Int.le_of_dvd (sub_pos.2 (abs_lt_excess a)) hdvd
      linarith
    refine fits_of_dvd (dvd_sub ((pow_dvd_pow 2 hlt.le).trans h.grid) ha) ?_
    rw [hexcess, pow_succ'] at hnear
    linarith

-- The rounded sum lies on the same side of zero as the larger summand.
theorem Rounded.abs_gain_le (h : Rounded (a + b) s) (hab : |b| ≤ |a|) : |s - a| ≤ max |a| |s| := by
  have hzero : Fits 0 := dvd_zero _
  obtain ⟨hlow, hhigh⟩ := abs_le.1 hab
  obtain ⟨ha, ha'⟩ | ⟨ha, ha'⟩ := abs_cases a
  · have hs : 0 ≤ s := h.le_of_ge hzero (by linarith)
    rw [abs_of_nonneg hs, abs_le]
    have := le_max_left |a| s
    have := le_max_right |a| s
    constructor <;> linarith
  · have hs : s ≤ 0 := h.le_of_le hzero (by linarith)
    rw [abs_of_nonpos hs, abs_le]
    have := le_max_left |a| (-s)
    have := le_max_right |a| (-s)
    constructor <;> linarith

end Splitting

end BarReplay.Decimal
