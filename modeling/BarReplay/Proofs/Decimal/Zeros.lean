import BarReplay.Amount.Double
import BarReplay.Proofs.Decimal.Bits

namespace BarReplay.Double

open Float.Model Float.Model.UnpackedFloat

-- A number and itself, and the two zeros.
inductive Twins : UnpackedFloat → UnpackedFloat → Prop
  | refl (u : UnpackedFloat) : Twins u u
  | zeros (s t : Sign) : Twins (.zero s) (.zero t)

namespace Twins

variable {u v : UnpackedFloat}

theorem trans {w : UnpackedFloat} (h : Twins u v) (h' : Twins v w) : Twins u w := by
  cases h with
  | refl => exact h'
  | zeros s t =>
    cases h' with
    | refl => exact .zeros s t
    | zeros _ r => exact .zeros s r

-- What is made of a number in the same way is the same, or made of a zero.
theorem map {f : UnpackedFloat → UnpackedFloat} (h : Twins u v)
    (hzeros : ∀ s t, Twins (f (.zero s)) (f (.zero t))) : Twins (f u) (f v) := by
  cases h with
  | refl => exact .refl _
  | zeros s t => exact hzeros s t

theorem congr {β : Type} {f : UnpackedFloat → β} (h : Twins u v)
    (hzeros : ∀ s t, f (.zero s) = f (.zero t)) : f u = f v := by
  cases h with
  | refl => rfl
  | zeros s t => exact hzeros s t

theorem zeros_ite (c d : Prop) [Decidable c] [Decidable d] (r s t q : Sign) :
    Twins (if c then .zero r else .zero s) (if d then .zero t else .zero q) := by
  split <;> split <;> exact .zeros _ _

theorem unpack_pack_zero (s : Sign) : (Float.Model.pack (.zero s)).unpack = .zero s := by
  cases s <;> rfl

-- Numbers are packed when they have been calculated, and unpacked to calculate with them.
theorem repack (h : Twins u v) :
    Twins (Float.Model.pack u).unpack (Float.Model.pack v).unpack := by
  refine h.map (f := fun u => (Float.Model.pack u).unpack) fun s t => ?_
  rw [unpack_pack_zero, unpack_pack_zero]
  exact .zeros s t

theorem mul_right (h : Twins u v) (w : UnpackedFloat) :
    Twins (UnpackedFloat.mul Format.binary64 u w) (UnpackedFloat.mul Format.binary64 v w) := by
  refine h.map (f := (UnpackedFloat.mul Format.binary64 · w)) fun s t => ?_
  cases w with
  | notANumber => exact .refl _
  | infinity => exact .refl _
  | zero => exact .zeros _ _
  | finite => exact .zeros _ _

theorem add_left (h : Twins u v) (w : UnpackedFloat) :
    Twins (UnpackedFloat.add Format.binary64 w u) (UnpackedFloat.add Format.binary64 w v) := by
  refine h.map fun s t => ?_
  cases w with
  | zero => exact zeros_ite _ _ _ _ _ _
  | _ => exact .refl _

theorem add_right (h : Twins u v) (w : UnpackedFloat) :
    Twins (UnpackedFloat.add Format.binary64 u w) (UnpackedFloat.add Format.binary64 v w) := by
  refine h.map (f := (UnpackedFloat.add Format.binary64 · w)) fun s t => ?_
  cases w with
  | zero => exact zeros_ite _ _ _ _ _ _
  | _ => exact .refl _

theorem zero_add (s : Sign) (w : UnpackedFloat) :
    Twins (UnpackedFloat.add Format.binary64 (.zero s) w) w := by
  cases w with
  | zero t =>
    dsimp only [UnpackedFloat.add]
    split <;> exact .zeros _ _
  | _ => exact .refl _

theorem sub_left (h : Twins u v) (w : UnpackedFloat) :
    Twins (UnpackedFloat.sub Format.binary64 w u) (UnpackedFloat.sub Format.binary64 w v) := by
  refine h.map fun s t => ?_
  cases w with
  | zero => exact zeros_ite _ _ _ _ _ _
  | _ => exact .refl _

theorem sub_right (h : Twins u v) (w : UnpackedFloat) :
    Twins (UnpackedFloat.sub Format.binary64 u w) (UnpackedFloat.sub Format.binary64 v w) := by
  refine h.map (f := (UnpackedFloat.sub Format.binary64 · w)) fun s t => ?_
  cases w with
  | zero => exact zeros_ite _ _ _ _ _ _
  | _ => exact .refl _

theorem abs (h : Twins u v) : Twins u.abs v.abs :=
  h.map fun _ _ => .refl _

-- No comparison tells the zeros apart.
theorem compare_left (h : Twins u v) (w : UnpackedFloat) : w.compare u = w.compare v := by
  refine h.congr fun s t => ?_
  cases w with
  | notANumber => rfl
  | infinity r => cases r <;> rfl
  | zero r => rfl
  | finite r => cases r <;> rfl

theorem compare_right (h : Twins u v) (w : UnpackedFloat) : u.compare w = v.compare w := by
  refine h.congr (f := (·.compare w)) fun s t => ?_
  cases w with
  | notANumber => rfl
  | infinity r => cases r <;> rfl
  | zero r => rfl
  | finite r => cases r <;> rfl

end Twins

theorem compare_swap (u v : UnpackedFloat) :
    v.compare u = (u.compare v).map Ordering.swap := by
  cases u with
  | notANumber => cases v <;> rfl
  | infinity s =>
    cases v with
    | notANumber => cases s <;> rfl
    | infinity t => cases s <;> cases t <;> rfl
    | zero t => cases s <;> rfl
    | finite t => cases s <;> cases t <;> rfl
  | zero s =>
    cases v with
    | notANumber => rfl
    | infinity t => cases t <;> rfl
    | zero t => rfl
    | finite t => cases t <;> rfl
  | finite s m e hm =>
    cases v with
    | notANumber => cases s <;> rfl
    | infinity t => cases s <;> cases t <;> rfl
    | zero t => cases s <;> rfl
    | finite t n f hn =>
      have hswap : (compare f e).then (compare n m) =
          ((compare e f).then (compare m n)).swap := by
        rw [Ordering.swap_then, ← Std.OrientedOrd.eq_swap, ← Std.OrientedOrd.eq_swap]
      cases s with
      | positive =>
        cases t with
        | positive => exact congrArg some hswap
        | negative => rfl
      | negative =>
        cases t with
        | positive => rfl
        | negative => exact congrArg (fun o => some o.swap) hswap

-- What compares as equal is the same number, except for the zeros.
theorem Twins.of_compare {u v : UnpackedFloat} (h : u.compare v = some .eq) : Twins u v := by
  cases u with
  | notANumber => cases h
  | infinity s =>
    cases v with
    | infinity t => cases s <;> cases t <;> first | exact .refl _ | cases h
    | notANumber => cases s <;> cases h
    | zero t => cases s <;> cases h
    | finite t => cases s <;> cases h
  | zero s =>
    cases v with
    | zero t => exact .zeros s t
    | notANumber => cases h
    | infinity t => cases t <;> cases h
    | finite t => cases t <;> cases h
  | finite s m e hm =>
    cases v with
    | finite t n f hn =>
      have hsame (h : (compare e f).then (compare m n) = .eq) :
          Twins (.finite s m e hm) (.finite s n f hn) := by
        obtain ⟨he, hm⟩ := Ordering.then_eq_eq.1 h
        obtain rfl := Std.LawfulEqOrd.eq_of_compare he
        obtain rfl := Std.LawfulEqOrd.eq_of_compare hm
        exact .refl _
      cases s with
      | positive =>
        cases t with
        | positive => exact hsame (Option.some.inj h)
        | negative => cases h
      | negative =>
        cases t with
        | positive => cases h
        | negative => exact hsame (Ordering.swap_inj.1 (Option.some.inj h))
    | notANumber => cases s <;> cases h
    | infinity t => cases s <;> cases t <;> cases h
    | zero t => cases s <;> cases h

-- A double and itself, and the two zeros.
def Alike (x y : Float) : Prop :=
  Twins x.toModel.unpack y.toModel.unpack

theorem lt_iff (x y : Float) :
    x < y ↔ x.toModel.unpack.compare y.toModel.unpack = some .lt := by
  change decide ((x.toModel.unpack.compare y.toModel.unpack == some .lt) = true) = true ↔ _
  rw [decide_eq_true_iff, beq_iff_eq]

theorem le_iff (x y : Float) :
    x ≤ y ↔ (x.toModel.unpack.compare y.toModel.unpack).any (·.isLE) = true := by
  change decide ((x.toModel.unpack.compare y.toModel.unpack).any (·.isLE) = true) = true ↔ _
  rw [decide_eq_true_iff]

-- Two doubles that are the same as amounts are alike.
theorem alike_of_same {x y : Float} (h : Amount.same x y = true) : Alike x y := by
  rw [Amount.same, Bool.and_eq_true, decide_eq_true_iff, decide_eq_true_iff] at h
  obtain ⟨hxy, hyx⟩ := h
  rw [le_iff] at hxy hyx
  rw [compare_swap] at hyx
  refine Twins.of_compare ?_
  cases hcompare : x.toModel.unpack.compare y.toModel.unpack with
  | none => simp [hcompare] at hxy
  | some o =>
    rw [hcompare] at hxy hyx
    cases o with
    | lt => cases hyx
    | eq => rfl
    | gt => cases hxy

theorem same_self {x : Float} (h : x.isFinite = true) : Amount.same x x = true := by
  have hcompare : x.toModel.unpack.compare x.toModel.unpack = some .eq := by
    change x.toModel.unpack.isFinite = true at h
    cases hx : x.toModel.unpack with
    | notANumber =>
      rw [hx] at h
      cases h
    | infinity s => cases s <;> rfl
    | zero s => rfl
    | finite s m e hm =>
      have heq : (compare e e).then (compare m m) = .eq := by simp
      cases s with
      | positive => exact congrArg some heq
      | negative => exact congrArg (fun o => some o.swap) heq
  have hle : x ≤ x := (le_iff x x).2 (by rw [hcompare]; rfl)
  simp only [Amount.same, hle, decide_true, Bool.and_self]

namespace Alike

variable {x y x' y' : Float}

theorem refl (x : Float) : Alike x x :=
  Twins.refl _

theorem option_refl (a : Option Float) : Option.Rel Alike a a := by
  cases a with
  | none => exact .none
  | some x => exact .some (.refl x)

theorem mul_right (h : Alike x y) (z : Float) : Alike (x * z) (y * z) :=
  (Twins.mul_right h z.toModel.unpack).repack

theorem add_left (h : Alike x y) (z : Float) : Alike (z + x) (z + y) :=
  (Twins.add_left h z.toModel.unpack).repack

theorem add_right (h : Alike x y) (z : Float) : Alike (x + z) (y + z) :=
  (Twins.add_right h z.toModel.unpack).repack

-- Adding nothing loses at most the sign of a zero.
theorem zero_add (x : Float) : Alike (0 + x) x := by
  have hrepack := (Twins.zero_add .positive x.toModel.unpack).repack
  rwa [Decimal.Binary64.pack_toModel] at hrepack

theorem sub_left (h : Alike x y) (z : Float) : Alike (z - x) (z - y) :=
  (Twins.sub_left h z.toModel.unpack).repack

theorem sub (h : Alike x y) (h' : Alike x' y') : Alike (x - x') (y - y') :=
  ((Twins.sub_left h' x.toModel.unpack).trans (Twins.sub_right h y'.toModel.unpack)).repack

theorem abs (h : Alike x y) : Alike x.abs y.abs :=
  (Twins.abs h).repack

theorem lt_iff_lt (h : Alike x y) (h' : Alike x' y') : x < x' ↔ y < y' := by
  rw [lt_iff, lt_iff, Twins.compare_left h', Twins.compare_right h]

theorem le_iff_le (h : Alike x y) (h' : Alike x' y') : x ≤ x' ↔ y ≤ y' := by
  rw [le_iff, le_iff, Twins.compare_left h', Twins.compare_right h]

-- Amounts that are alike are the same as the same amounts.
theorem same_left (h : Alike x y) (z : Float) : Amount.same z x = Amount.same z y := by
  unfold Amount.same
  rw [decide_eq_decide.2 ((Alike.refl z).le_iff_le h), decide_eq_decide.2 (h.le_iff_le (.refl z))]

end Alike

end BarReplay.Double
