import Mathlib.Algebra.Field.Defs
import Mathlib.Algebra.Order.Field.Basic
import Mathlib.Algebra.Order.Floor.Defs
import BarReplay.Amount

namespace BarReplay

-- Roots and powers leave an ordered field, so exact arithmetic takes them as they are given
-- and assumes nothing of them.
class Roots (K : Type) where
  sqrt : K → K
  power : K → K → Except Fault K

-- Where none are taken, any will do.
@[reducible] def Roots.untaken {K : Type} : Roots K where
  sqrt x := x
  power x _ := .ok x

namespace Amount

-- Arithmetic that never rounds: the amounts are an ordered field in which every element has a
-- whole part, such as the rational or the real numbers. Nothing is too large and nothing is
-- undefined.
instance (priority := low) exact {K : Type} [Field K] [LinearOrder K] [FloorRing K] [Roots K] :
    Amount K where
  decLt := inferInstance
  decLe := inferInstance
  abs x := |x|
  whole n := n
  ofInt n := .ok n
  ratio n d := n / d
  floor x := .ok ⌊x⌋
  isFinite _ := true
  sqrt := Roots.sqrt
  square x := .ok (x * x)
  power := Roots.power

theorem whole_exact {K : Type} [Field K] [LinearOrder K] [FloorRing K] [Roots K] (n : Nat) :
    (whole n : K) = n :=
  rfl

-- The same arithmetic, except that divisions by zero give what one likes.
@[reducible] def dividing {K : Type} [Field K] [LinearOrder K] [FloorRing K] [Roots K]
    (byZero : K → K) : Amount K :=
  { exact with div := fun x y => if y = 0 then byZero x else x / y }

section Scaling

variable {K : Type} [Field K] [LinearOrder K] [FloorRing K] [Roots K] [IsStrictOrderedRing K]
  {c : K} (hc : 0 < c)

include hc

-- Multiplied by the same positive amount, the largest and the smallest of some amounts are still
-- the same ones.

theorem larger_scale (x y : K) : larger (c * x) (c * y) = c * larger x y := by
  simp only [larger, mul_lt_mul_iff_right₀ hc]
  split <;> rfl

theorem smaller_scale (x y : K) : smaller (c * x) (c * y) = c * smaller x y := by
  simp only [smaller, mul_lt_mul_iff_right₀ hc]
  split <;> rfl

theorem maximum_scale (x : K) (xs : List K) :
    maximum (c * x) (xs.map (c * ·)) = c * maximum x xs :=
  List.foldl_map.trans (List.foldl_hom (c * ·) (larger_scale hc))

theorem minimum_scale (x : K) (xs : List K) :
    minimum (c * x) (xs.map (c * ·)) = c * minimum x xs :=
  List.foldl_map.trans (List.foldl_hom (c * ·) (smaller_scale hc))

end Scaling

end Amount

end BarReplay
