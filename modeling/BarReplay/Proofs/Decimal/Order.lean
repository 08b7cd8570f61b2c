import Mathlib.Data.Prod.Lex
import BarReplay.Decimal.Reading
import BarReplay.Proofs.Decimal.Range
import BarReplay.Proofs.Decimal.Zeros

namespace BarReplay.Double

open Float.Model Float.Model.UnpackedFloat

-- Two numbers are ordered unless one of them is no number.
theorem isNone_compare (u v : UnpackedFloat) : (u.compare v).isNone = (u.isNaN || v.isNaN) := by
  cases u with
  | notANumber => rfl
  | infinity s => cases s <;> cases v <;> rfl
  | zero s =>
    cases v with
    | notANumber => rfl
    | zero t => rfl
    | infinity t => cases t <;> rfl
    | finite t => cases t <;> rfl
  | finite s =>
    cases v with
    | notANumber => cases s <;> rfl
    | zero t => cases s <;> rfl
    | infinity t => cases s <;> cases t <;> rfl
    | finite t => cases s <;> cases t <;> rfl

theorem compare_eq_none_iff_isNaN (x y : Float) :
    x.toModel.unpack.compare y.toModel.unpack = none ↔ x.isNaN = true ∨ y.isNaN = true := by
  rw [← Option.isNone_iff_eq_none, isNone_compare, Bool.or_eq_true]
  exact Iff.rfl

-- What is not less may be unordered.
theorem not_lt_iff (x y : Float) : ¬ x < y ↔ y ≤ x ∨ x.isNaN = true ∨ y.isNaN = true := by
  rw [lt_iff, le_iff, compare_swap x.toModel.unpack, ← compare_eq_none_iff_isNaN]
  cases x.toModel.unpack.compare y.toModel.unpack with
  | none => simp
  | some o => cases o <;> decide

theorem not_le_iff (x y : Float) : ¬ x ≤ y ↔ y < x ∨ x.isNaN = true ∨ y.isNaN = true := by
  rw [le_iff, lt_iff, compare_swap x.toModel.unpack, ← compare_eq_none_iff_isNaN]
  cases x.toModel.unpack.compare y.toModel.unpack with
  | none => simp
  | some o => cases o <;> decide

theorem le_of_lt {x y : Float} (h : x < y) : x ≤ y := by
  rw [lt_iff] at h
  rw [le_iff, h]
  rfl

theorem not_lt_of_le {x y : Float} (h : x ≤ y) : ¬ y < x :=
  fun hlt => absurd (.inl h) (mt (not_lt_iff y x).2 (not_not_intro hlt))

-- What is less or greater is a number.
theorem isNaN_of_lt {x y : Float} (h : x < y) : x.isNaN = false ∧ y.isNaN = false := by
  have hordered := mt (compare_eq_none_iff_isNaN x y).2
  rw [(lt_iff x y).1 h, not_or, Bool.not_eq_true, Bool.not_eq_true] at hordered
  exact hordered nofun

theorem isNaN_of_le {x y : Float} (h : x ≤ y) : x.isNaN = false ∧ y.isNaN = false := by
  have hordered := mt (compare_eq_none_iff_isNaN x y).2
  rw [not_or, Bool.not_eq_true, Bool.not_eq_true] at hordered
  refine hordered fun hnone => ?_
  rw [le_iff, hnone] at h
  cases h

theorem isNaN_of_pos {x : Float} (h : 0 < x) : x.isNaN = false :=
  (isNaN_of_lt h).2

theorem Twins.eq_of_pos {u v : UnpackedFloat} (h : Twins u v)
    (hpos : UnpackedFloat.compare (.zero .positive) u = some .lt) : u = v := by
  cases h with
  | refl => rfl
  | zeros s t => cases hpos

-- Above zero two doubles that are the same amount are the same double.
theorem eq_of_pos {x y : Float} (hx : 0 < x) (hxy : x ≤ y) (hyx : y ≤ x) : x = y := by
  have hsame : Amount.same x y = true := by
    rw [Amount.same, decide_eq_true hxy, decide_eq_true hyx, Bool.and_self]
  have halike : Alike x y := alike_of_same hsame
  have hunpack := halike.eq_of_pos ((lt_iff 0 x).1 hx)
  have hmodel : x.toModel = y.toModel := by
    rw [← Decimal.Binary64.pack_toModel, hunpack, Decimal.Binary64.pack_toModel]
  exact congrArg Float.ofModel hmodel

theorem compare_zero_neg {u : UnpackedFloat} (h : u.compare (.zero .positive) = some .lt) :
    UnpackedFloat.compare (.zero .positive) u.neg = some .lt := by
  cases u with
  | notANumber => cases h
  | zero s => cases h
  | infinity s =>
    cases s with
    | positive => cases h
    | negative => rfl
  | finite s m e hm =>
    cases s with
    | positive => cases h
    | negative => rfl

theorem neg_pos {x : Float} (h : x < 0) : 0 < -x := by
  rw [lt_iff, Decimal.Binary64.unpack_neg]
  exact compare_zero_neg ((lt_iff x 0).1 h)

-- Finite numbers are compared by their exponents first.
theorem isLE_then_iff (e f : ℤ) (m n : ℕ) :
    ((compare e f).then (compare m n)).isLE = true ↔ e < f ∨ e = f ∧ m ≤ n := by
  rw [Ordering.isLE_then_iff_or, compare_lt_iff_lt, compare_eq_iff_eq, Nat.isLE_compare]

theorem isGE_then_iff (e f : ℤ) (m n : ℕ) :
    ((compare e f).then (compare m n)).isGE = true ↔ f < e ∨ f = e ∧ n ≤ m := by
  rw [← isLE_then_iff, ← Ordering.isLE_swap, Ordering.swap_then, ← Std.OrientedOrd.eq_swap,
    ← Std.OrientedOrd.eq_swap]

-- The place of a number in their order: infinities at the ends, the zeros in the middle.
def rank : UnpackedFloat → ℤ ×ₗ ℤ ×ₗ ℤ
  | .infinity s => toLex (s.apply 2, toLex (0, 0))
  | .finite s m e _ => toLex (s.apply 1, toLex (s.apply e, s.apply m))
  | .zero _ => toLex (0, toLex (0, 0))
  | .notANumber => toLex (0, toLex (0, 0))

theorem isLE_compare_iff {u v : UnpackedFloat} (hu : u.isNaN = false) (hv : v.isNaN = false) :
    (u.compare v).any (·.isLE) = true ↔ rank u ≤ rank v := by
  cases u with
  | notANumber => cases hu
  | infinity s =>
    cases v with
    | notANumber => cases hv
    | infinity t => cases s <;> cases t <;> decide
    | zero t => cases s <;> cases t <;> decide
    | finite t =>
      dsimp only [rank, UnpackedFloat.compare]
      cases s <;> cases t <;> simp [Prod.Lex.toLex_le_toLex, Sign.apply]
  | zero s =>
    cases v with
    | notANumber => cases hv
    | infinity t => cases s <;> cases t <;> decide
    | zero t => cases s <;> cases t <;> decide
    | finite t =>
      dsimp only [rank, UnpackedFloat.compare]
      cases t <;> simp [Prod.Lex.toLex_le_toLex, Sign.apply]
  | finite s m e =>
    cases v with
    | notANumber => cases hv
    | infinity t =>
      dsimp only [rank, UnpackedFloat.compare]
      cases s <;> cases t <;> simp [Prod.Lex.toLex_le_toLex, Sign.apply]
    | zero t =>
      dsimp only [rank, UnpackedFloat.compare]
      cases s <;> simp [Prod.Lex.toLex_le_toLex, Sign.apply]
    | finite t n f =>
      have hle := isLE_then_iff e f m n
      have hge := isGE_then_iff e f m n
      rw [eq_comm (a := f)] at hge
      dsimp only [rank, UnpackedFloat.compare]
      cases s <;> cases t <;> simp [Prod.Lex.toLex_le_toLex, Sign.apply, hle, hge]

theorem le_iff_rank {x y : Float} (hx : x.isNaN = false) (hy : y.isNaN = false) :
    x ≤ y ↔ rank x.toModel.unpack ≤ rank y.toModel.unpack := by
  rw [le_iff, isLE_compare_iff hx hy]

theorem le_trans {x y z : Float} (hx : x.isNaN = false) (hy : y.isNaN = false)
    (hz : z.isNaN = false) (hxy : x ≤ y) (hyz : y ≤ z) : x ≤ z := by
  rw [le_iff_rank hx hy] at hxy
  rw [le_iff_rank hy hz] at hyz
  rw [le_iff_rank hx hz]
  exact hxy.trans hyz

end BarReplay.Double

namespace BarReplay.Decimal.Binary64

open Float.Model Float.Model.UnpackedFloat

-- A word without anything behind its exponent field is a number.
theorem isNaN_ofBits {w : ℕ} (hw : w < 2 ^ 64) (h : w / 2 ^ 52 % 2 ^ 11 = 2047 → w % 2 ^ 52 = 0) :
    (Float.ofBits (UInt64.ofNat w)).isNaN = false := by
  by_cases hfield : w / 2 ^ 52 % 2 ^ 11 = 2047
  · obtain ⟨b, hb⟩ : ∃ b : BitVec Format.binary64.numBits, b = (UInt64.ofNat w).toBitVec := ⟨_, rfl⟩
    have htoNat : b.toNat = w := by
      rw [hb]
      exact Nat.mod_eq_of_lt hw
    have hones : unpackExponent b = -1#11 := by
      rw [← BitVec.toNat_inj, unpackExponent, BitVec.toNat_cast, BitVec.extractLsb_toNat,
        Nat.shiftRight_eq_div_pow, htoNat]
      exact hfield
    have hzero : unpackMantissa b = 0#52 := by
      rw [← BitVec.toNat_inj, unpackMantissa, BitVec.toNat_cast, BitVec.extractLsb_toNat,
        Nat.shiftRight_eq_div_pow, htoNat]
      simpa using h hfield
    change (Float.Model.pack (UnpackedFloat.unpack Format.binary64
      (UInt64.ofNat w).toBitVec)).unpack.isNaN = false
    rw [← hb]
    unfold UnpackedFloat.unpack
    dsimp only
    rw [if_pos hones, if_pos hzero]
    cases Sign.ofBitVec (unpackSign b) <;> rfl
  · have hfinite := (isFinite_ofBits_iff hw).2 hfield
    change (Float.ofBits (UInt64.ofNat w)).toModel.unpack.isFinite = true at hfinite
    change (Float.ofBits (UInt64.ofNat w)).toModel.unpack.isNaN = false
    cases hunpack : (Float.ofBits (UInt64.ofNat w)).toModel.unpack with
    | notANumber =>
      rw [hunpack] at hfinite
      cases hfinite
    | infinity s => rfl
    | zero s => rfl
    | finite s m e hm => rfl

-- Rounding gives a number, if only an infinite one.
theorem isNaN_nearest (negative : Bool) (num den : ℕ) :
    (nearest negative num den).isNaN = false := by
  have hmost := nearestBits_le num den
  have hword : signed negative (nearestBits num den) < 2 ^ 64 := by
    rw [signed, Nat.pow_eq]
    split <;> omega
  refine isNaN_ofBits hword ?_
  rw [signed, Nat.pow_eq]
  split <;> omega

theorem isNaN_ofDecimal (negative : Bool) (mantissa : ℕ) (exponent : ℤ) :
    (ofDecimal negative mantissa exponent).isNaN = false := by
  unfold ofDecimal
  split
  · exact isNaN_nearest _ _ _
  split
  · exact isNaN_nearest _ _ _
  split
  · exact isNaN_nearest _ _ _
  · exact isNaN_nearest _ _ _

end BarReplay.Decimal.Binary64

namespace BarReplay.Decimal.Binary64

open Float.Model Float.Model.UnpackedFloat

theorem ofFloat?_eq_none {x : Float} (h : x.isFinite = false) : ofFloat? x = none := by
  have hfield : x.toBits.toNat / 2 ^ 52 % 2 ^ 11 = 2047 := by
    by_contra hne
    have hfinite := (isFinite_ofBits_iff x.toBits.toNat_lt).2 hne
    rw [UInt64.ofNat_toNat, ofBits_toBits, h] at hfinite
    cases hfinite
  simp only [ofFloat?, ofBits?, Nat.pow_eq, hfield, if_true]

end BarReplay.Decimal.Binary64

namespace BarReplay.Double

open Decimal Float.Model

theorem isFinite_iff (x : Float) : x.isFinite = true ↔ x.isNaN = false ∧ x.isInf = false := by
  have hkind (u : UnpackedFloat) : u.isFinite = (!u.isNaN && !u.isInf) := by
    cases u <;> rfl
  change x.toModel.unpack.isFinite = true ↔
    x.toModel.unpack.isNaN = false ∧ x.toModel.unpack.isInf = false
  rw [hkind, Bool.and_eq_true, Bool.not_eq_true', Bool.not_eq_true']

theorem isInf_eq_false {x : Float} (h : x.isNaN = true) : x.isInf = false := by
  change x.toModel.unpack.isInf = false
  rw [Binary64.eq_notANumber h]
  rfl

-- The sign of a number says nothing about its kind.
theorem kind_neg (x : Float) : (-x).isNaN = x.isNaN ∧ (-x).isInf = x.isInf := by
  change (-x).toModel.unpack.isNaN = x.toModel.unpack.isNaN ∧
    (-x).toModel.unpack.isInf = x.toModel.unpack.isInf
  rw [Binary64.unpack_neg]
  cases x.toModel.unpack <;> exact ⟨rfl, rfl⟩

-- All numbers but the infinite ones have a whole part. What is no number fails in its own way.
theorem floor_eq_error_iff {x : Float} {f : Fault} :
    floor x = .error f ↔
      x.isNaN = true ∧ f = .undefinedWhole ∨ x.isInf = true ∧ f = .overflow := by
  unfold floor
  cases hfinite : x.isFinite with
  | true =>
    obtain ⟨b, hb, -⟩ := Binary64.exists_of_isFinite hfinite
    obtain ⟨hnumber, hbounded⟩ := (isFinite_iff x).1 hfinite
    simp only [hb, hnumber, hbounded, reduceCtorEq, Bool.false_eq_true, false_and, or_self]
  | false =>
    rw [Binary64.ofFloat?_eq_none hfinite]
    cases hnumber : x.isNaN with
    | true => simp [isInf_eq_false hnumber, eq_comm]
    | false =>
      have hbounded : x.isInf = true := by
        by_contra h
        have := (isFinite_iff x).2 ⟨hnumber, Bool.not_eq_true _ ▸ h⟩
        rw [hfinite] at this
        cases this
      simp [hbounded, eq_comm]

end BarReplay.Double

namespace BarReplay.Decimal

-- A text that names what is no number, in any case, with a sign or without.
def NamesNoNumber (s : String) : Prop :=
  ∃ cs, withoutUnderscores? (plainNumeral s) = some cs ∧
    String.ofList ((Literal.takeSign cs).2.map Char.toLower) = "nan"

theorem readFloat?_of_namesNoNumber {s : String} (h : NamesNoNumber s) :
    readFloat? s = some (0.0 / 0.0) := by
  obtain ⟨cs, hcs, hname⟩ := h
  simp only [readFloat?, hcs, Option.bind_eq_bind, Option.bind_some]
  rw [hname]
  rfl

-- Of all texts that are read as numbers only those that name no number give none.
theorem namesNoNumber_of_isNaN {s : String} {x : Float} (h : readFloat? s = some x)
    (hx : x.isNaN = true) : NamesNoNumber s := by
  unfold readFloat? at h
  obtain ⟨cs, hcs, h⟩ := Option.bind_eq_some_iff.1 h
  refine ⟨cs, hcs, ?_⟩
  dsimp only at h
  split at h
  · cases h
    rw [Binary64.isNaN_nearest] at hx
    cases hx
  split at h
  · assumption
  split at h
  · cases h
    rw [Binary64.isNaN_ofDecimal] at hx
    cases hx
  · cases h

end BarReplay.Decimal
