import BarReplay.Indicator.Table
import BarReplay.Rule.Basic

namespace BarReplay

open Amount Indicator

variable {α : Type} [Amount α]

def PriceField.of (f : PriceField) (b : Bar α) : α :=
  match f with
  | opening => b.opening
  | high => b.high
  | low => b.low
  | close => b.close
  | volume => b.volume

-- What rules are evaluated on: the bars of an instrument by date, and series over them.
structure Chart (α : Type) where
  bars : List (Bar α)
  series : Table α

namespace Chart

-- What an operand reads at a bar; nothing outside the bars, without a series, or during the
-- warm-up of one. A constant can be read anywhere.
def read? (c : Chart α) (o : Operand α) (index : Int) : Option α :=
  match o with
  | .constant x => some x
  | .price f => if index < 0 then none else (c.bars[index.toNat]?).map f.of
  | .reading s f =>
    match c.series.find? s with
    | some series => series.valueAt? index f
    | none => none

end Chart

-- A relation of two readings; it does not hold if one of them is missing.
def bothRead (r : α → α → Bool) : Option α → Option α → Bool
  | some x, some y => r x y
  | _, _ => false

-- Amounts closer than this are equal for a rule.
def tolerance : α := ratio 1 1000000000

def lessThan (x y : α) : Bool := x < y
def atMost (x y : α) : Bool := x ≤ y
def closeTo (x y : α) : Bool := abs (x - y) < tolerance

def isBetween (lower upper : α) : Option α → Bool
  | some x => atMost lower x && atMost x upper
  | none => false

-- What operands read at bars.
abbrev Readings (α : Type) := Operand α → Int → Option α

-- Crossing looks at two bars, so it never happens at the first one.
def Comparison.holdsBy (c : Comparison) (read : Readings α) (left right : Operand α)
    (index : Int) : Bool :=
  let l := read left
  let r := read right
  match c with
  | crossAbove =>
    index != 0 && bothRead atMost (l (index - 1)) (r (index - 1)) &&
      bothRead lessThan (r index) (l index)
  | crossBelow =>
    index != 0 && bothRead atMost (r (index - 1)) (l (index - 1)) &&
      bothRead lessThan (l index) (r index)
  | above => bothRead lessThan (r index) (l index)
  | below => bothRead lessThan (l index) (r index)
  | equals => bothRead closeTo (l index) (r index)

namespace Rule

mutual

-- Whether a rule holds at a bar, by what its operands read. Windows are walked from the bar back
-- to earlier ones.
def holdsBy (read : Readings α) : Rule α → Int → Bool
  | compare c l r, i => c.holdsBy read l r i
  | between o lower upper, i => isBetween lower upper (read o i)
  | all rs, i => holdAll read rs i
  | any rs, i => holdSome read rs i
  | not r, i => !r.holdsBy read i
  | consecutive r n, i =>
    (n : Int) ≤ i + 1 && Nat.all n fun k _ => r.holdsBy read (i - k)
  | anyOf r n, i => Nat.any (min n (i + 1).toNat) fun k _ => r.holdsBy read (i - k)

def holdAll (read : Readings α) : List (Rule α) → Int → Bool
  | [], _ => true
  | r :: rs, i => r.holdsBy read i && holdAll read rs i

def holdSome (read : Readings α) : List (Rule α) → Int → Bool
  | [], _ => false
  | r :: rs, i => r.holdsBy read i || holdSome read rs i

end

def holds (chart : Chart α) (r : Rule α) (index : Int) : Bool :=
  r.holdsBy chart.read? index

end Rule

end BarReplay
