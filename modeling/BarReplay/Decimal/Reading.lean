import BarReplay.Decimal.Binary64
import BarReplay.Decimal.Literal

namespace BarReplay.Decimal

open Text

-- A text as numerals are read: digits of all scripts become ASCII digits, and white space at
-- both ends is dropped.
def plainNumeral (s : String) : List Char :=
  (trimBy isNumeralBlank s.toList).map fun c =>
    match decimalDigit? c with
    | some d => Char.ofNat ('0'.toNat + d)
    | none => c

-- Whether each underscore stands between two digits.
def underscoresSeparate (previous : Char) : List Char → Bool
  | [] => previous != '_'
  | c :: cs =>
    (c != '_' || previous.isDigit) && (previous != '_' || c.isDigit) && underscoresSeparate c cs

-- Drops underscores between digits; an underscore anywhere else spoils the numeral.
def withoutUnderscores? (cs : List Char) : Option (List Char) :=
  if underscoresSeparate ' ' cs then some (cs.filter (· != '_')) else none

-- The whole number that a text denotes: digits with an optional sign, not too many of them.
def readInt? (s : String) : Option Int := do
  let cs ← withoutUnderscores? (plainNumeral s)
  let (negative, cs) := Literal.takeSign cs
  match spanDigits cs with
  | ([], _) => none
  | (ds, []) =>
    if digitLimit < ds.length then none
    else some (if negative then -(value ds : Int) else value ds)
  | _ => none

-- The number that a text denotes: a decimal numeral with an optional sign, rounded to
-- the nearest, or one of the names of what is not finite.
def readFloat? (s : String) : Option Float := do
  let cs ← withoutUnderscores? (plainNumeral s)
  let (negative, cs) := Literal.takeSign cs
  let name := String.ofList (cs.map Char.toLower)
  if name = "inf" ∨ name = "infinity" then
    some (Binary64.nearest negative (Nat.pow 2 1100) 1)
  else if name = "nan" then
    some (0.0 / 0.0)
  else
    match Literal.scanUnsigned? cs with
    | some (l, []) => some (Binary64.ofDecimal negative l.mantissa l.exponent)
    | _ => none

end BarReplay.Decimal
