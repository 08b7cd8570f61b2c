import Mathlib.Algebra.Group.Nat.Defs
import BarReplay.Decimal.Binary64

namespace BarReplay.Decimal.Binary64

open Float.Model Float.Model.UnpackedFloat

-- A double is its bits: taking a word apart into sign, exponent and mantissa and putting it
-- together again gives the same word.

theorem sign_toBitVec (b : BitVec 1) : (Sign.ofBitVec b).toBitVec = b := by
  unfold Sign.ofBitVec
  split
  · rename_i h
    exact h.symm
  · rename_i h
    exact ((BitVec.eq_zero_or_eq_one b).resolve_left h).symm

theorem packComponents_unpack (b : BitVec Format.binary64.numBits) :
    packComponents Format.binary64 (Sign.ofBitVec (unpackSign b)) (unpackExponent b)
      (unpackMantissa b) = b := by
  rw [packComponents, sign_toBitVec]
  ext i hi
  unfold unpackSign unpackExponent unpackMantissa
  simp only [BitVec.getElem_append, BitVec.getElem_cast, BitVec.extractLsb,
    BitVec.getElem_extractLsb']
  split
  · rw [Nat.zero_add]
    exact BitVec.getLsbD_eq_getElem _
  split
  · have hmiddle : 52 + (i - 52) = i := by omega
    rw [hmiddle]
    exact BitVec.getLsbD_eq_getElem _
  · have hlast : 52 + 11 + (i - 52 - 11) = i := by omega
    rw [hlast]
    exact BitVec.getLsbD_eq_getElem _

-- The leading bit of a normal number is not stored.
theorem toNat_leading (b : BitVec 52) : (1#1 ++ b).toNat = 2 ^ 52 + b.toNat := by
  rw [BitVec.toNat_append, ← Nat.shiftLeft_add_eq_or_of_lt b.isLt]
  rfl

theorem pack_unpack {b : BitVec Format.binary64.numBits} (hvalid : Format.binary64.Valid b) :
    UnpackedFloat.pack Format.binary64 (UnpackedFloat.unpack Format.binary64 b) = b := by
  have hmantissa : (unpackMantissa b).toNat < 2 ^ 52 := (unpackMantissa b).isLt
  have hexponent : (unpackExponent b).toNat < 2 ^ 11 := (unpackExponent b).isLt
  have hbits : Format.binary64.mantissaBits = 53 := rfl
  have hword := packComponents_unpack b
  unfold UnpackedFloat.unpack
  dsimp only
  by_cases hones : unpackExponent b = -1#11
  · rw [if_pos hones]
    by_cases hm : unpackMantissa b = 0#52
    · rw [hones, hm] at hword
      rw [if_pos hm]
      exact hword
    · rw [if_neg hm]
      exact (hvalid.eq_packedNaN hones hm).symm
  rw [if_neg hones]
  by_cases hzero : unpackExponent b = 0#11
  · rw [if_pos hzero]
    rw [hzero] at hword
    by_cases hm : unpackMantissa b = 0#52
    · rw [hm] at hword
      rw [dif_pos hm]
      exact hword
    · have hne : (unpackMantissa b).toNat ≠ 0 := fun h => hm (BitVec.eq_of_toNat_eq h)
      have hlog := (Nat.log2_lt hne).2 hmantissa
      rw [dif_neg hm, hzero]
      dsimp only [UnpackedFloat.pack]
      rw [if_neg (by decide), if_neg (by rw [hbits]; omega), BitVec.ofNat_toNat, BitVec.setWidth_eq]
      exact hword
  · have hmax : (unpackExponent b).toNat ≠ 2047 := fun h => hones (BitVec.eq_of_toNat_eq h)
    have hlog : (2 ^ 52 + (unpackMantissa b).toNat).log2 = 52 := by
      rw [Nat.log2_eq_iff (by omega)]
      omega
    have hbiased : ((unpackExponent b).toNat - ((Format.binary64.exponentBias : Int) + (52 : Nat)) +
        Format.binary64.exponentBias + (52 : Nat)).toNat = (unpackExponent b).toNat := by
      omega
    have hstored : BitVec.ofNat 52 (2 ^ 52 + (unpackMantissa b).toNat) = unpackMantissa b := by
      apply BitVec.eq_of_toNat_eq
      simpa using hmantissa
    rw [if_neg hzero]
    dsimp only [UnpackedFloat.pack]
    rw [hbiased, toNat_leading, hlog, hbits, if_neg (by omega), if_pos rfl, hstored,
      BitVec.ofNat_toNat, BitVec.setWidth_eq]
    exact hword

theorem pack_toModel (x : Float) : Float.Model.pack x.toModel.unpack = x.toModel := by
  obtain ⟨bits, hvalid⟩ := x
  rw [Float.Model.pack, Float.Model.mk.injEq]
  exact congrArg UInt64.ofBitVec (pack_unpack hvalid)

theorem ofBits_toBits (x : Float) : Float.ofBits x.toBits = x :=
  congrArg Float.ofModel (pack_toModel x)

-- The sign is in a bit of its own.
theorem unpackSign_packComponents (s : Sign) (e : BitVec 11) (m : BitVec 52) :
    unpackSign (packComponents Format.binary64 s e m) = s.toBitVec := by
  unfold unpackSign packComponents
  ext i hi
  simp only [BitVec.getElem_cast, BitVec.extractLsb, BitVec.getElem_extractLsb',
    BitVec.getLsbD_append]
  have hfirst : i = 0 := by omega
  subst hfirst
  rfl

theorem ofBitVec_toBitVec (s : Sign) : Sign.ofBitVec s.toBitVec = s := by
  cases s <;> rfl

theorem pack_neg {u : UnpackedFloat} (hu : u.isNaN = false) {b : BitVec Format.binary64.numBits}
    (hb : UnpackedFloat.pack Format.binary64 u = b) :
    UnpackedFloat.pack Format.binary64 u.neg =
      packComponents Format.binary64 (-Sign.ofBitVec (unpackSign b)) (unpackExponent b)
        (unpackMantissa b) := by
  have hcomponents (s : Sign) (e : BitVec 11) (m : BitVec 52)
      (hp : UnpackedFloat.pack Format.binary64 u = packComponents Format.binary64 s e m) :
      packComponents Format.binary64 (-Sign.ofBitVec (unpackSign b)) (unpackExponent b)
        (unpackMantissa b) = packComponents Format.binary64 (-s) e m := by
    rw [← hb, hp, unpackSign_packComponents, ofBitVec_toBitVec, unpackExponent_packComponents,
      unpackMantissa_packComponents]
  cases u with
  | notANumber => cases hu
  | infinity s => exact (hcomponents s _ _ rfl).symm
  | zero s => exact (hcomponents s _ _ rfl).symm
  | finite s m e hm =>
    unfold UnpackedFloat.neg
    unfold UnpackedFloat.pack at hcomponents ⊢
    dsimp only at hcomponents ⊢
    split
    · exact (hcomponents s _ _ (if_pos ‹_›)).symm
    split
    · exact (hcomponents s _ _ ((if_neg ‹_›).trans (if_pos ‹_›))).symm
    · exact (hcomponents s _ _ ((if_neg ‹_›).trans (if_neg ‹_›))).symm

theorem finite_congr {s t : Sign} {m n : ℕ} {e f : ℤ} (hm : 0 < m) (hn : 0 < n) (hs : s = t)
    (hmn : m = n) (hef : e = f) : UnpackedFloat.finite s m e hm = .finite t n f hn := by
  subst hs hmn hef
  rfl

theorem unpack_packComponents_neg (b : BitVec Format.binary64.numBits) :
    UnpackedFloat.unpack Format.binary64 (packComponents Format.binary64
      (-Sign.ofBitVec (unpackSign b)) (unpackExponent b) (unpackMantissa b)) =
      (UnpackedFloat.unpack Format.binary64 b).neg := by
  obtain ⟨c, hc⟩ : ∃ c, c = packComponents Format.binary64 (-Sign.ofBitVec (unpackSign b))
    (unpackExponent b) (unpackMantissa b) := ⟨_, rfl⟩
  have hsign : Sign.ofBitVec (unpackSign c) = -Sign.ofBitVec (unpackSign b) := by
    rw [hc, unpackSign_packComponents, ofBitVec_toBitVec]
  have hexponent : unpackExponent c = unpackExponent b := hc ▸ unpackExponent_packComponents
  have hmantissa : unpackMantissa c = unpackMantissa b := hc ▸ unpackMantissa_packComponents
  rw [← hc]
  unfold UnpackedFloat.unpack
  dsimp only
  by_cases hones : unpackExponent b = -1#11
  · rw [if_pos (hexponent.trans hones), if_pos hones]
    by_cases hzero : unpackMantissa b = 0#52
    · rw [if_pos (hmantissa.trans hzero), if_pos hzero, hsign]
      rfl
    · rw [if_neg (by rwa [hmantissa]), if_neg hzero]
      rfl
  rw [if_neg (by rwa [hexponent]), if_neg hones]
  by_cases hleast : unpackExponent b = 0#11
  · rw [if_pos (hexponent.trans hleast), if_pos hleast]
    by_cases hzero : unpackMantissa b = 0#52
    · rw [dif_pos (hmantissa.trans hzero), dif_pos hzero, hsign]
      rfl
    · rw [dif_neg (by rwa [hmantissa]), dif_neg hzero]
      exact finite_congr _ _ hsign (congrArg BitVec.toNat hmantissa)
        (congrArg (fun e : BitVec 11 => (e.toNat : ℤ) - (1023 + 52) + 1) hexponent)
  · rw [if_neg (by rwa [hexponent]), if_neg hleast]
    exact finite_congr _ _ hsign (congrArg (fun m : BitVec 52 => (1#1 ++ m).toNat) hmantissa)
      (congrArg (fun e : BitVec 11 => (e.toNat : ℤ) - (1023 + 52)) hexponent)

theorem eq_notANumber {u : UnpackedFloat} (h : u.isNaN = true) : u = .notANumber := by
  cases u with
  | notANumber => rfl
  | _ => cases h

-- A negation changes the sign and nothing else.
theorem unpack_neg (x : Float) : (-x).toModel.unpack = x.toModel.unpack.neg := by
  obtain ⟨⟨bits, hvalid⟩⟩ := x
  change UnpackedFloat.unpack Format.binary64 (UnpackedFloat.pack Format.binary64
    (UnpackedFloat.unpack Format.binary64 bits.toBitVec).neg) =
      (UnpackedFloat.unpack Format.binary64 bits.toBitVec).neg
  cases hnumber : (UnpackedFloat.unpack Format.binary64 bits.toBitVec).isNaN with
  | true =>
    rw [eq_notANumber hnumber]
    rfl
  | false => rw [pack_neg hnumber (pack_unpack hvalid), unpack_packComponents_neg]

theorem exponent_ne_of_isFinite {x : Float} (h : x.isFinite = true) :
    x.toBits.toNat / 2 ^ 52 % 2 ^ 11 ≠ 2047 := by
  intro hmax
  have hones : @unpackExponent Format.binary64 x.toBits.toBitVec = -1#11 := by
    apply BitVec.eq_of_toNat_eq
    rw [unpackExponent, BitVec.toNat_cast, BitVec.extractLsb_toNat, Nat.shiftRight_eq_div_pow]
    exact hmax
  change (UnpackedFloat.unpack Format.binary64 x.toBits.toBitVec).isFinite = true at h
  unfold UnpackedFloat.unpack at h
  dsimp only at h
  rw [if_pos hones] at h
  by_cases hm : @unpackMantissa Format.binary64 x.toBits.toBitVec = 0#52
  · rw [if_pos hm] at h
    cases h
  · rw [if_neg hm] at h
    cases h

-- The mantissas and exponents of the finite numbers, each number in one way.
structure Legal (m : Nat) (e : Int) : Prop where
  mantissa : m < 2 ^ 53
  least : -1074 ≤ e
  greatest : e ≤ 971
  normal : -1074 < e → 2 ^ 52 ≤ m

theorem Legal.pattern_lt {m : Nat} {e : Int} (h : Legal m e) :
    pattern m e < 2047 * Nat.pow 2 52 := by
  obtain ⟨hm, hleast, hgreatest, -⟩ := h
  rw [pattern, Nat.pow_eq]
  split <;> omega

theorem exists_of_ne {n : Nat} (hn : n < 2 ^ 64) (hfield : n / 2 ^ 52 % 2 ^ 11 ≠ 2047) :
    ∃ b, ofBits? n = some b ∧ Legal b.mantissa b.exponent ∧
      signed b.negative (pattern b.mantissa b.exponent) = n := by
  simp only [ofBits?, Nat.pow_eq, hfield, if_false]
  split
  · have hlegal : Legal (n % 2 ^ 52) (-1074) := ⟨by omega, by omega, by omega, by omega⟩
    refine ⟨_, rfl, hlegal, ?_⟩
    simp only [signed, pattern, decide_eq_true_eq, Nat.pow_eq]
    split <;> split <;> omega
  · have hlegal : Legal (n % 2 ^ 52 + 2 ^ 52) ((n / 2 ^ 52 % 2 ^ 11 : Nat) - 1075) :=
      ⟨by omega, by omega, by omega, by omega⟩
    refine ⟨_, rfl, hlegal, ?_⟩
    simp only [signed, pattern, decide_eq_true_eq, Nat.pow_eq]
    split <;> split <;> omega

-- A finite number is its mantissa, its exponent and its sign.
theorem exists_of_isFinite {x : Float} (h : x.isFinite = true) :
    ∃ b, ofFloat? x = some b ∧ Legal b.mantissa b.exponent ∧
      Float.ofBits (UInt64.ofNat (signed b.negative (pattern b.mantissa b.exponent))) = x := by
  obtain ⟨b, hb, hlegal, hbits⟩ := exists_of_ne x.toBits.toNat_lt (exponent_ne_of_isFinite h)
  refine ⟨b, hb, hlegal, ?_⟩
  rw [hbits, UInt64.ofNat_toNat]
  exact ofBits_toBits x

end BarReplay.Decimal.Binary64
