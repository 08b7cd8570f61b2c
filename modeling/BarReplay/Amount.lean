namespace BarReplay

-- What arithmetic on amounts can refuse to answer.
inductive Fault where
  -- a result, or a whole number to be turned into an amount, is too large
  | overflow
  -- an undefined amount has no whole part
  | undefinedWhole
  -- a sum meets both infinities
  | opposedInfinities
  deriving DecidableEq

def Fault.message : Fault → String
  | overflow => "number out of range"
  | undefinedWhole => "cannot convert float NaN to integer"
  | opposedInfinities => "-inf + inf in fsum"

-- The numbers that prices, money and indicator values are made of.
-- Programs run on binary64; an exact ordered field is an instance as well,
-- which is where statements about exact arithmetic are made.
-- The four operations never fail. What can fail answers in `Except Fault`.
class Amount (α : Type) extends Add α, Sub α, Mul α, Div α, Neg α, LT α, LE α, Zero α, One α where
  decLt : DecidableLT α
  decLe : DecidableLE α
  abs : α → α
  -- small whole numbers: counts of bars, and the constants of formulas
  whole : Nat → α
  -- any whole number, unless it is too large
  ofInt : Int → Except Fault α
  -- the amount nearest to a ratio of two whole numbers
  ratio : Int → Nat → α
  floor : α → Except Fault Int
  isFinite : α → Bool
  sqrt : α → α
  square : α → Except Fault α
  power : α → α → Except Fault α

attribute [reducible, instance] Amount.decLt Amount.decLe

namespace Amount

variable {α : Type} [Amount α]

-- Equality as amounts: the two zeros are the same amount, an undefined one is not even
-- the same as itself.
def same (a b : α) : Bool :=
  decide (a ≤ b) && decide (b ≤ a)

-- The first of two amounts unless the second is larger.
def larger (a b : α) : α :=
  if a < b then b else a

-- The first of two amounts unless the second is smaller.
def smaller (a b : α) : α :=
  if b < a then b else a

-- The sum from the left, starting at zero.
def sum (xs : List α) : α :=
  xs.foldl (· + ·) 0

-- The largest of a list that is not empty, the first of several that are equal.
def maximum (x : α) (xs : List α) : α :=
  xs.foldl larger x

def minimum (x : α) (xs : List α) : α :=
  xs.foldl smaller x

end Amount

end BarReplay
