import BarReplay.Amount
import BarReplay.Decimal.Literal
import BarReplay.Decimal.Shortest

namespace BarReplay

open Decimal

namespace Double

-- A power or square of finite numbers that is not finite is out of range.
def guarded (finite : Bool) (result : Float) : Except Fault Float :=
  if finite && result.isInf then .error .overflow else .ok result

def ofInt (n : Int) : Except Fault Float :=
  let x := Binary64.nearest (decide (n < 0)) n.natAbs 1
  if x.isFinite then .ok x else .error .overflow

-- The largest whole number that is not above `x`.
def floor (x : Float) : Except Fault Int :=
  match Binary64.ofFloat? x with
  | some b =>
    let (num, den) := scale b.mantissa 2 b.exponent
    .ok (Int.fdiv (if b.negative then -(num : Int) else num) den)
  | none => .error (if x.isNaN then .undefinedWhole else .overflow)

-- The whole number that is left of one after it has been made an amount.
def wholeOf (n : Int) : Except Fault Int := do
  floor (← ofInt n)

end Double

instance : Amount Float where
  zero := 0.0
  one := 1.0
  decLt := inferInstance
  decLe := inferInstance
  abs := Float.abs
  whole n := Binary64.nearest false n 1
  ofInt := Double.ofInt
  ratio n d := Binary64.nearest (decide (n < 0)) n.natAbs d
  floor := Double.floor
  isFinite := Float.isFinite
  sqrt := Float.sqrt
  square x := Double.guarded x.isFinite (Float.pow x 2.0)
  power x y := Double.guarded (x.isFinite && y.isFinite) (Float.pow x y)

-- Amounts that text can hold.
class Numeral (α : Type) extends Amount α where
  -- the canonical text of an amount
  text : α → String
  -- the amount nearest to what a decimal numeral denotes
  ofLiteral : Decimal.Literal → α

instance : Numeral Float where
  text := Decimal.shortest
  ofLiteral l := Decimal.Binary64.ofDecimal l.negative l.mantissa l.exponent

end BarReplay
