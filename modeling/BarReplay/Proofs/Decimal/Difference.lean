import BarReplay.Proofs.Decimal.Order

namespace BarReplay.Decimal.Binary64

open Float.Model Float.Model.UnpackedFloat

-- A double is taken apart into something that is not finite, into the zero of empty fields, or into
-- a mantissa and an exponent of the finite numbers.
theorem unpack_cases (b : BitVec Format.binary64.numBits) :
    (UnpackedFloat.unpack Format.binary64 b).isFinite = false ∨
      (unpackExponent b = 0#11 ∧ unpackMantissa b = 0#52 ∧
        ∃ s, UnpackedFloat.unpack Format.binary64 b = .zero s) ∨
      ∃ s m e hm, UnpackedFloat.unpack Format.binary64 b = .finite s m e hm ∧ Legal m e := by
  have hmantissa : (unpackMantissa b).toNat < 2 ^ 52 := (unpackMantissa b).isLt
  have hexponent : (unpackExponent b).toNat < 2 ^ 11 := (unpackExponent b).isLt
  unfold UnpackedFloat.unpack
  dsimp only
  by_cases hones : unpackExponent b = -1#11
  · left
    rw [if_pos hones]
    by_cases hempty : unpackMantissa b = 0#52
    · rw [if_pos hempty]
      rfl
    · rw [if_neg hempty]
      rfl
  right
  rw [if_neg hones]
  by_cases hzero : unpackExponent b = 0#11
  · rw [if_pos hzero]
    by_cases hempty : unpackMantissa b = 0#52
    · exact .inl ⟨hzero, hempty, _, dif_pos hempty⟩
    · have hpos : 0 < (unpackMantissa b).toNat :=
        Nat.pos_of_ne_zero fun h => hempty (BitVec.eq_of_toNat_eq h)
      refine .inr ⟨_, _, _, hpos, dif_neg hempty, ?_⟩
      rw [hzero]
      exact ⟨by omega, by decide, by decide, fun hlt => absurd hlt (by decide)⟩
  · rw [if_neg hzero]
    have hmost : (unpackExponent b).toNat ≠ 2047 := fun h => hones (BitVec.eq_of_toNat_eq h)
    have hleast : (unpackExponent b).toNat ≠ 0 := fun h => hzero (BitVec.eq_of_toNat_eq h)
    have hbias : (Format.binary64.exponentBias : ℤ) = 1023 := rfl
    have hpos : 0 < (1#1 ++ unpackMantissa b).toNat := by
      rw [toNat_leading]
      omega
    refine .inr ⟨_, _, _, hpos, rfl, ?_⟩
    rw [toNat_leading, hbias]
    exact ⟨by omega, by omega, by omega, by omega⟩

theorem legal_of_unpack {b : BitVec Format.binary64.numBits} {s : Sign} {m : ℕ} {e : ℤ}
    {hm : 0 < m} (h : UnpackedFloat.unpack Format.binary64 b = .finite s m e hm) : Legal m e := by
  obtain hnot | ⟨-, -, t, hzero⟩ | ⟨t, n, f, hn, hfinite, hlegal⟩ := unpack_cases b
  · rw [h] at hnot
    cases hnot
  · rw [h] at hzero
    cases hzero
  · rw [h] at hfinite
    cases hfinite
    exact hlegal

-- A finite number with the larger exponent is the larger one.
theorem Legal.lt_of_exponent_lt {m n : ℕ} {e f : ℤ} (hm : Legal m e) (hn : Legal n f)
    (h : e < f) : m < n * 2 ^ (f - e).toNat := by
  obtain ⟨k, hk⟩ : ∃ k, (f - e).toNat = k + 1 := ⟨(f - e).toNat - 1, by omega⟩
  have hnormal : 2 ^ 52 ≤ n := hn.normal (lt_of_le_of_lt hm.least h)
  calc m < 2 ^ 53 := hm.mantissa
    _ = 2 ^ 52 * 2 ^ 1 := rfl
    _ ≤ n * 2 ^ (f - e).toNat :=
      Nat.mul_le_mul hnormal (Nat.pow_le_pow_right Nat.two_pos (by omega))

-- A finite number has one mantissa and one exponent.
theorem Legal.eq_of_scaled {m n : ℕ} {e f : ℤ} (hm : Legal m e) (hn : Legal n f)
    (h : m * 2 ^ (e - min e f).toNat = n * 2 ^ (f - min e f).toNat) : m = n ∧ e = f := by
  obtain hlt | rfl | hlt := lt_trichotomy e f
  · rw [min_eq_left hlt.le, sub_self, Int.toNat_zero, pow_zero, mul_one] at h
    exact absurd h (hm.lt_of_exponent_lt hn hlt).ne
  · rw [min_self, sub_self, Int.toNat_zero, pow_zero, mul_one, mul_one] at h
    exact ⟨h, rfl⟩
  · rw [min_eq_right hlt.le, sub_self, Int.toNat_zero, pow_zero, mul_one] at h
    exact absurd h.symm (hn.lt_of_exponent_lt hm hlt).ne

-- Rounding

-- What rounding keeps: some mantissa is left, it fits, and the exponent is not too small.
structure Sized (m : ℕ) (e : ℤ) : Prop where
  pos : 0 < m
  mantissa : m < 2 ^ 53
  least : -1074 ≤ e

theorem Legal.sized {m : ℕ} {e : ℤ} (h : Legal m e) (hm : 0 < m) : Sized m e :=
  ⟨hm, h.mantissa, h.least⟩

theorem mantissa_shiftRight (em : ExtendedMantissa) (n : ℕ) :
    (em >>> n).mantissa = em.mantissa / 2 ^ n := by
  induction n with
  | zero => exact (Nat.div_one _).symm
  | succ n ih =>
    change (em >>> n).mantissa / 2 = _
    rw [ih, Nat.div_div_eq_div_mul, pow_succ]

theorem le_roundedMantissa (em : ExtendedMantissa) : em.mantissa ≤ em.roundedMantissa := by
  obtain ⟨m, r, s⟩ := em
  cases r with
  | false => cases s <;> exact le_rfl
  | true =>
    cases s with
    | false => exact Nat.le_add_right m (m % 2)
    | true => exact Nat.le_succ m

theorem sized_shiftToTargetExponent {m : ℕ} (hm : 0 < m) {e : ℤ} (he : -1074 ≤ e) (a : Accuracy) :
    Sized (shiftToTargetExponent Format.binary64 m e a).1.mantissa
      (shiftToTargetExponent Format.binary64 m e a).2 := by
  have hstart : (ExtendedMantissa.ofMantissaAndAccuracy m a).mantissa = m := by
    cases a with
    | exact => rfl
    | inexact o => cases o <;> rfl
  have htarget : Format.binary64.targetExponent (totalExponent m e) =
      max ((m.log2 : ℤ) + 1 + e - 53) (-1074) := rfl
  have hamount : (Format.binary64.targetExponent (totalExponent m e) - e).toNat = m.log2 - 52 := by
    rw [htarget]
    omega
  have hlow : 2 ^ m.log2 ≤ m := Nat.log2_self_le hm.ne'
  have hhigh : m < 2 ^ (m.log2 + 1) := Nat.lt_log2_self
  unfold shiftToTargetExponent shiftToExponent
  dsimp only
  rw [mantissa_shiftRight, hstart, hamount]
  refine ⟨Nat.div_pos (le_trans ?_ hlow) (Nat.two_pow_pos _), ?_, by omega⟩
  · exact Nat.pow_le_pow_right Nat.two_pos (Nat.sub_le _ _)
  · rw [Nat.div_lt_iff_lt_mul (Nat.two_pow_pos _), ← pow_add]
    exact lt_of_lt_of_le hhigh (Nat.pow_le_pow_right Nat.two_pos (by omega))

theorem exists_roundWithAccuracy (s : Sign) {m : ℕ} (hm : 0 < m) {e : ℤ} (he : -1074 ≤ e)
    (a : Accuracy) : ∃ n f, ∃ hn : 0 < n,
      roundWithAccuracy Format.binary64 s m e a = .finite s n f hn ∧ Sized n f := by
  have hfirst := sized_shiftToTargetExponent hm he a
  have hrounded := hfirst.pos.trans_le (le_roundedMantissa _)
  have hlast := sized_shiftToTargetExponent hrounded hfirst.least .exact
  exact ⟨_, _, hlast.pos, dif_neg hlast.pos.ne', hlast⟩

-- What is not zero is not rounded to zero.
theorem exists_round (s : Sign) {m : ℕ} (hm : 0 < m) {e : ℤ} (he : -1074 ≤ e) :
    ∃ n f, ∃ hn : 0 < n, round Format.binary64 s m e = .finite s n f hn ∧ Sized n f := by
  have htarget : -1074 ≤ Format.binary64.targetExponent (totalExponent m e) := le_max_right _ _
  have hpos : 0 < m <<< (e - Format.binary64.targetExponent (totalExponent m e)).toNat := by
    rw [Nat.shiftLeft_eq]
    exact Nat.mul_pos hm (Nat.two_pow_pos _)
  exact exists_roundWithAccuracy s hpos (by omega) .exact

theorem exists_normalize {z : ℤ} (hz : z ≠ 0) {e : ℤ} (he : -1074 ≤ e) (t : Sign) :
    ∃ s n f, ∃ hn : 0 < n,
      UnpackedFloat.normalize Format.binary64 z e t = .finite s n f hn ∧ Sized n f := by
  unfold UnpackedFloat.normalize
  obtain hneg | hpos := lt_or_gt_of_ne hz
  · rw [compare_lt_iff_lt.2 hneg]
    exact ⟨.negative, exists_round .negative (by omega) he⟩
  · rw [compare_gt_iff_gt.2 hpos]
    exact ⟨.positive, exists_round .positive (by omega) he⟩

-- A word whose exponent and mantissa fields are not both empty is not one of the zeros.
theorem fields_of_unpack_zero {b : BitVec Format.binary64.numBits} {t : Sign}
    (h : UnpackedFloat.unpack Format.binary64 b = .zero t) :
    unpackExponent b = 0#11 ∧ unpackMantissa b = 0#52 := by
  obtain hnot | ⟨hexponent, hmantissa, -⟩ | ⟨s, m, e, hm, hfinite, -⟩ := unpack_cases b
  · rw [h] at hnot
    cases hnot
  · exact ⟨hexponent, hmantissa⟩
  · rw [h] at hfinite
    cases hfinite

theorem unpack_pack_ne_zero (s t : Sign) {m : ℕ} {e : ℤ} (hm : 0 < m) (h : Sized m e) :
    (Float.Model.pack (.finite s m e hm)).unpack ≠ .zero t := by
  intro hzero
  obtain ⟨hexponent, hmantissa⟩ := fields_of_unpack_zero hzero
  have hleast := h.least
  have hbias : (Format.binary64.exponentBias : ℤ) = 1023 := rfl
  have hbits : Format.binary64.mantissaBits = 53 := rfl
  change unpackExponent (UnpackedFloat.pack Format.binary64 (.finite s m e hm)) = 0#11 at hexponent
  change unpackMantissa (UnpackedFloat.pack Format.binary64 (.finite s m e hm)) = 0#52 at hmantissa
  unfold UnpackedFloat.pack at hexponent hmantissa
  dsimp only at hexponent hmantissa
  split at hexponent
  · -- an infinity
    rw [packedInfinity, unpackExponent_packComponents] at hexponent
    exact absurd hexponent (by decide)
  · rename_i hbounded
    rw [if_neg hbounded] at hmantissa
    split at hexponent
    · -- a normal number, whose exponent field is not empty
      rw [unpackExponent_packComponents] at hexponent
      have hfield := congrArg BitVec.toNat hexponent
      rw [BitVec.toNat_ofNat, hbias, BitVec.toNat_ofNat] at hfield
      rw [hbias] at hbounded
      omega
    · -- a subnormal number, whose mantissa field is not empty
      rename_i hsubnormal
      rw [if_neg hsubnormal, unpackMantissa_packComponents] at hmantissa
      have hlog : m.log2 < 53 := (Nat.log2_lt hm.ne').2 h.mantissa
      have hsmall : m < 2 ^ 52 := (Nat.log2_lt hm.ne').1 (by omega)
      have hfield := congrArg BitVec.toNat hmantissa
      rw [BitVec.toNat_ofNat, Nat.mod_eq_of_lt hsmall, BitVec.toNat_ofNat] at hfield
      omega

end BarReplay.Decimal.Binary64

namespace BarReplay.Double

open Decimal.Binary64 Float.Model Float.Model.UnpackedFloat

-- The difference of two finite numbers is zero only where they are the same.
theorem finite_sub_eq_zero {s t r : Sign} {m n : ℕ} {e f : ℤ} {hm : 0 < m} {hn : 0 < n}
    (he : Legal m e) (hf : Legal n f)
    (h : (Float.Model.pack (UnpackedFloat.sub Format.binary64 (.finite s m e hm)
      (.finite t n f hn))).unpack = .zero r) :
    UnpackedFloat.finite s m e hm = .finite t n f hn := by
  have hleast : -1074 ≤ min e f := le_min he.least hf.least
  have hzero : s.apply (m <<< (e - min e f).toNat : ℕ) - t.apply (n <<< (f - min e f).toNat : ℕ) =
      0 := by
    by_contra hne
    obtain ⟨q, k, g, hk, hround, hsized⟩ := exists_normalize hne hleast .positive
    refine unpack_pack_ne_zero q r hk hsized ?_
    rw [← hround]
    exact h
  rw [Nat.shiftLeft_eq, Nat.shiftLeft_eq] at hzero
  have hmpos : 0 < m * 2 ^ (e - min e f).toNat := Nat.mul_pos hm (Nat.two_pow_pos _)
  have hnpos : 0 < n * 2 ^ (f - min e f).toNat := Nat.mul_pos hn (Nat.two_pow_pos _)
  have hsame : s = t ∧ m * 2 ^ (e - min e f).toNat = n * 2 ^ (f - min e f).toNat := by
    generalize m * 2 ^ (e - min e f).toNat = a at *
    generalize n * 2 ^ (f - min e f).toNat = b at *
    cases s <;> cases t <;> simp only [Sign.apply] at hzero <;> simp <;> omega
  obtain ⟨hmn, hef⟩ := he.eq_of_scaled hf hsame.2
  exact finite_congr hm hn hsame.1 hmn hef

-- What is not finite stays so in a difference, and when it is packed.
theorem isFinite_of_sub {u v : UnpackedFloat}
    (h : (UnpackedFloat.sub Format.binary64 u v).isFinite = true) :
    u.isFinite = true ∧ v.isFinite = true := by
  cases u with
  | notANumber => cases v <;> cases h
  | infinity s =>
    cases v with
    | infinity t => cases s <;> cases t <;> cases h
    | _ => cases h
  | zero s => cases v <;> first | exact ⟨rfl, rfl⟩ | cases h
  | finite s => cases v <;> first | exact ⟨rfl, rfl⟩ | cases h

theorem isFinite_of_pack {u : UnpackedFloat} (h : (Float.Model.pack u).unpack.isFinite = true) :
    u.isFinite = true := by
  cases u with
  | notANumber => exact absurd h (by decide)
  | infinity s => cases s <;> exact absurd h (by decide)
  | zero s => rfl
  | finite s => rfl

theorem twins_of_sub_eq_zero {u v : UnpackedFloat} {r : Sign}
    (hu : ∀ {s m e hm}, u = .finite s m e hm → Legal m e)
    (hv : ∀ {s m e hm}, v = .finite s m e hm → Legal m e)
    (h : (Float.Model.pack (UnpackedFloat.sub Format.binary64 u v)).unpack = .zero r) :
    Twins u v ∧ u.isFinite = true := by
  have hfinite :
      (Float.Model.pack (UnpackedFloat.sub Format.binary64 u v)).unpack.isFinite = true :=
    h.symm ▸ rfl
  obtain ⟨hufinite, hvfinite⟩ := isFinite_of_sub (isFinite_of_pack hfinite)
  refine ⟨?_, hufinite⟩
  cases u with
  | notANumber => cases hufinite
  | infinity s => cases hufinite
  | zero s =>
    cases v with
    | notANumber => cases hvfinite
    | infinity t => cases hvfinite
    | zero t => exact .zeros s t
    | finite t n f hn => exact absurd h (unpack_pack_ne_zero (-t) r hn ((hv rfl).sized hn))
  | finite s m e hm =>
    cases v with
    | notANumber => cases hvfinite
    | infinity t => cases hvfinite
    | zero t => exact absurd h (unpack_pack_ne_zero s r hm ((hu rfl).sized hm))
    | finite t n f hn =>
      rw [finite_sub_eq_zero (hu rfl) (hv rfl) h]
      exact .refl _

theorem sub_self_eq_zero {u : UnpackedFloat} (h : u.isFinite = true) :
    UnpackedFloat.sub Format.binary64 u u = .zero .positive := by
  cases u with
  | notANumber => cases h
  | infinity s => cases h
  | zero s => cases s <;> rfl
  | finite s m e hm =>
    dsimp only [UnpackedFloat.sub, UnpackedFloat.normalize]
    rw [sub_self]
    rfl

-- A zero has only zeros for twins.
theorem Twins.eq_zero {u : UnpackedFloat} {s : Sign} (h : Twins u (.zero s)) :
    ∃ r, u = .zero r := by
  cases h with
  | refl => exact ⟨s, rfl⟩
  | zeros r s => exact ⟨r, rfl⟩

theorem Alike.symm {x y : Float} (h : Alike x y) : Alike y x := by
  unfold Alike at h ⊢
  generalize x.toModel.unpack = u at h ⊢
  generalize y.toModel.unpack = v at h ⊢
  cases h with
  | refl => exact .refl _
  | zeros s t => exact .zeros t s

theorem Alike.same {x y : Float} (h : Alike x y) (hx : x.isFinite = true) :
    Amount.same x y = true :=
  (h.same_left x).symm.trans (same_self hx)

-- The difference of two doubles is zero where they are the same, apart from infinities.
theorem same_sub_zero_iff (x y : Float) :
    Amount.same (x - y) 0 = true ↔ Amount.same x y = true ∧ x.isFinite = true := by
  constructor
  · intro h
    have hzero : Twins (x - y).toModel.unpack (.zero .positive) := alike_of_same h
    obtain ⟨r, hr⟩ := hzero.eq_zero
    obtain ⟨htwins, hfinite⟩ := twins_of_sub_eq_zero legal_of_unpack legal_of_unpack hr
    exact ⟨Alike.same htwins hfinite, hfinite⟩
  · rintro ⟨hsame, hfinite⟩
    have htwins := (Twins.sub_left (alike_of_same hsame) x.toModel.unpack).repack
    rw [sub_self_eq_zero hfinite, Twins.unpack_pack_zero] at htwins
    have halike : Alike 0 (x - y) := htwins
    obtain ⟨r, hr⟩ := Twins.eq_zero halike.symm
    have hdifference : (x - y).isFinite = true := by
      change (x - y).toModel.unpack.isFinite = true
      rw [hr]
      rfl
    exact halike.symm.same hdifference

end BarReplay.Double
