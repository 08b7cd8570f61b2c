import BarReplay.Decimal.Digits
import BarReplay.Decimal.Binary64

namespace BarReplay.Decimal

-- A positive decimal `0.d₁d₂… · 10^point`, with a first and a last digit other than zero.
structure Shortest where
  digits : List Char
  point : Int

namespace Shortest

-- The numbers that read back as a binary64 number, between two ends in quarter units
-- of its last place. The ends themselves round to an even mantissa.
structure Interval where
  low : Nat
  centre : Nat
  high : Nat
  closed : Bool
  -- the unit is `2^exponent`
  exponent : Int

-- Below a power of two the neighbours are half as far away.
def Interval.of (m : Nat) (e : Int) : Interval :=
  let gap := if m = Nat.pow 2 52 ∧ -1074 < e then 1 else 2
  ⟨4 * m - gap, 4 * m, 4 * m + 2, m % 2 = 0, e - 2⟩

-- `c · 10^p ≤ t · 2^q`, in whole numbers.
def decimalLe (c : Nat) (p : Int) (t : Nat) (q : Int) : Bool :=
  c * Nat.pow 10 p.toNat * Nat.pow 2 (-q).toNat ≤ t * Nat.pow 2 q.toNat * Nat.pow 10 (-p).toNat

def decimalLt (c : Nat) (p : Int) (t : Nat) (q : Int) : Bool :=
  c * Nat.pow 10 p.toNat * Nat.pow 2 (-q).toNat < t * Nat.pow 2 q.toNat * Nat.pow 10 (-p).toNat

def Interval.holds (i : Interval) (c : Nat) (p : Int) : Bool :=
  if i.closed then
    !decimalLt c p i.low i.exponent && decimalLe c p i.high i.exponent
  else
    !decimalLe c p i.low i.exponent && decimalLt c p i.high i.exponent

-- The grid point of `10^p` at or below the number.
def Interval.gridFloor (i : Interval) (p : Int) : Nat :=
  let num := i.centre * Nat.pow 2 i.exponent.toNat * Nat.pow 10 (-p).toNat
  num / (Nat.pow 10 p.toNat * Nat.pow 2 (-i.exponent).toNat)

-- Whether the number is nearer to the grid point `c` than to the next, a half to the even.
def Interval.prefersLower (i : Interval) (c : Nat) (p : Int) : Bool :=
  if decimalLt (2 * c + 1) p (2 * i.centre) i.exponent then false
  else if decimalLe (2 * c + 1) p (2 * i.centre) i.exponent then c % 2 = 0
  else true

-- The grid point of `10^p` that reads back, the nearer one of two.
-- If any point of the grid reads back, so does one of the two neighbours of the number.
def Interval.onGrid? (i : Interval) (p : Int) : Option Nat :=
  let c := i.gridFloor p
  match i.holds c p, i.holds (c + 1) p with
  | true, true => if i.prefersLower c p then some c else some (c + 1)
  | true, false => some c
  | false, true => some (c + 1)
  | false, false => none

-- The number of places before the point: `10^(k-1) ≤ x < 10^k`.
-- The binary logarithm gives it up to one, which a comparison settles.
def Interval.places (i : Interval) : Int :=
  let log : Int := (Nat.log2 i.centre : Int) + i.exponent
  let k := Int.fdiv (log * 30103) 100000
  if !decimalLe 1 k i.centre i.exponent then k
  else if decimalLe 1 (k + 1) i.centre i.exponent then k + 2
  else k + 1

def trimZeros (ds : List Char) : List Char :=
  (ds.reverse.dropWhile (· = '0')).reverse

-- Tries grids of `count`, `count + 1`, … digits.
def Interval.search (i : Interval) (k : Int) : Nat → Nat → Shortest
  | _, 0 => ⟨['0'], 0⟩
  | count, tries + 1 =>
    match i.onGrid? (k - count) with
    | some c =>
      let ds := Decimal.digits c
      ⟨trimZeros ds, k - count + ds.length⟩
    | none => i.search k (count + 1) tries

-- The fewest digits that read back as `m · 2^e`, and of those the nearest.
-- Seventeen digits always do.
def of (m : Nat) (e : Int) : Shortest :=
  let i := Interval.of m e
  i.search i.places 1 17

end Shortest

-- How a number is written: positional up to `10^16` and down to `10^-4`, otherwise with an
-- exponent of at least two digits. A whole number keeps `.0` in positional form.
def Shortest.positional (s : Shortest) : String :=
  let count := s.digits.length
  if s.point ≤ 0 then
    "0." ++ String.ofList (List.replicate (-s.point).toNat '0' ++ s.digits)
  else if s.point.toNat < count then
    String.ofList (s.digits.take s.point.toNat) ++ "." ++
      String.ofList (s.digits.drop s.point.toNat)
  else
    String.ofList (s.digits ++ List.replicate (s.point.toNat - count) '0') ++ ".0"

def Shortest.scientific (s : Shortest) : String :=
  let head := String.ofList (s.digits.take 1)
  let tail := s.digits.drop 1
  let e := s.point - 1
  head ++ (if tail.isEmpty then "" else "." ++ String.ofList tail) ++ "e" ++
    (if e < 0 then "-" else "+") ++ padded 2 e.natAbs

-- The shortest text that reads back as the same number.
def shortest (x : Float) : String :=
  match Binary64.ofFloat? x with
  | none => if x.isNaN then "nan" else if x < 0 then "-inf" else "inf"
  | some b =>
    let sign := if b.negative then "-" else ""
    if b.mantissa = 0 then sign ++ "0.0"
    else
      let s := Shortest.of b.mantissa b.exponent
      sign ++ (if -4 < s.point ∧ s.point ≤ 16 then s.positional else s.scientific)

end BarReplay.Decimal
