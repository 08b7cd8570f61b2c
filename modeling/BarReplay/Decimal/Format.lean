import BarReplay.Decimal.Shortest

namespace BarReplay.Decimal

-- A number with a fixed count of places. The exact binary value is rounded, a half to the
-- even last digit; a negative number keeps its sign when it rounds to zero.
structure FixedFormat where
  places : Nat
  -- a comma between groups of three digits before the point
  grouping : Bool := false
  -- the sign is written for positive numbers too
  signed : Bool := false

def FixedFormat.text (f : FixedFormat) (x : Float) : String :=
  match Binary64.ofFloat? x with
  | none =>
    if x.isNaN then (if f.signed then "+nan" else "nan")
    else if x < 0 then "-inf" else (if f.signed then "+inf" else "inf")
  | some b =>
    let (num, den) := scale b.mantissa 2 b.exponent
    let units := divideEven (num * Nat.pow 10 f.places) den
    let wholePart := units / Nat.pow 10 f.places
    let sign := if b.negative then "-" else if f.signed then "+" else ""
    sign ++ (if f.grouping then grouped wholePart else Decimal.text wholePart) ++
      (if f.places = 0 then "" else "." ++ padded f.places (units % Nat.pow 10 f.places))

-- A whole number with at most six significant digits, the rest rounded to even, and an
-- exponent from a million on. Zeros at the end of the digits are left out.
def generalNat (n : Nat) : String :=
  let length := (digits n).length
  if length ≤ 6 then text n
  else
    let lead := divideEven n (Nat.pow 10 (length - 6))
    let places : Int := if lead = Nat.pow 10 6 then length + 1 else length
    Shortest.scientific ⟨Shortest.trimZeros (digits lead), places⟩

def generalInt (n : Int) : String :=
  (if n < 0 then "-" else "") ++ generalNat n.natAbs

end BarReplay.Decimal
