namespace BarReplay.Decimal

-- A quotient rounded to the nearest whole number, a half to the even one.
def divideEven (num den : Nat) : Nat :=
  let q := num / den
  let r := num % den
  if 2 * r < den then q
  else if den < 2 * r then q + 1
  else if q % 2 = 0 then q else q + 1

-- The whole number `n · base^e` over a denominator, for any sign of `e`.
def scale (n base : Nat) (e : Int) : Nat × Nat :=
  if e < 0 then (n, Nat.pow base e.natAbs) else (n * Nat.pow base e.natAbs, 1)

-- A finite binary64 number: `mantissa · 2^exponent`, with a sign of its own so that
-- both zeros are there.
structure Binary64 where
  negative : Bool
  mantissa : Nat
  exponent : Int
  deriving DecidableEq

namespace Binary64

def ofBits? (bits : Nat) : Option Binary64 :=
  let field : Nat := bits / Nat.pow 2 52 % Nat.pow 2 11
  let fraction := bits % Nat.pow 2 52
  let negative := decide (Nat.pow 2 63 ≤ bits)
  if field = 2047 then none
  else if field = 0 then some ⟨negative, fraction, -1074⟩
  else some ⟨negative, fraction + Nat.pow 2 52, (field : Int) - 1075⟩

def ofFloat? (x : Float) : Option Binary64 :=
  ofBits? x.toBits.toNat

-- The exponent at which a ratio of whole numbers has a whole part of 53 bits.
def leadingExponent (num den : Nat) : Int :=
  let guess : Int := (Nat.log2 num : Int) - Nat.log2 den - 52
  let s := scale den 2 guess
  -- now `num / (den · 2^guess)` is between 2^51 and 2^53
  if num * s.2 < s.1 * Nat.pow 2 52 then guess - 1 else guess

-- The multiple of `2^e` nearest to a ratio.
def multiple (num den : Nat) (e : Int) : Nat :=
  let s := scale den 2 e
  divideEven (num * s.2) s.1

-- The bits of `m · 2^e`, without the sign. A mantissa of 54 bits carries into the exponent field.
def pattern (m : Nat) (e : Int) : Nat :=
  if m < Nat.pow 2 52 then m else (e + 1074).toNat * Nat.pow 2 52 + m

-- The bit pattern of the binary64 number nearest to a ratio of whole numbers, ties to the
-- even mantissa; beyond the largest finite number it is the pattern of infinity.
-- The quotient is first scaled to 53 bits (fewer where the exponent is at its least), so
-- one division rounds.
def nearestBits (num den : Nat) : Nat :=
  if num = 0 ∨ den = 0 then 0
  else
    let e := max (leadingExponent num den) (-1074)
    min (pattern (multiple num den e) e) (2047 * Nat.pow 2 52)

-- The sign is the uppermost bit.
def signed (negative : Bool) (bits : Nat) : Nat :=
  if negative then bits + Nat.pow 2 63 else bits

def nearest (negative : Bool) (num den : Nat) : Float :=
  Float.ofBits (UInt64.ofNat (signed negative (nearestBits num den)))

-- The number nearest to `± mantissa · 10^exponent`. Exponents far outside the range are
-- settled without computing the power: `10^400` is beyond the largest number, and a negative
-- power of ten is below that power of eight.
def ofDecimal (negative : Bool) (mantissa : Nat) (exponent : Int) : Float :=
  if mantissa = 0 then nearest negative 0 1
  else if 400 < exponent then nearest negative (Nat.pow 2 1100) 1
  else if (Nat.log2 mantissa : Int) + 1 + 3 * exponent < -1100 then nearest negative 0 1
  else
    let (num, den) := scale mantissa 10 exponent
    nearest negative num den

end Binary64

end BarReplay.Decimal
