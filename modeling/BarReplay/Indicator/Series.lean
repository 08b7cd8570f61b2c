import BarReplay.Indicator.Spec
import BarReplay.Market.Basic

namespace BarReplay.Indicator

-- The values of an indicator at one bar.
inductive Reading (α : Type) where
  | scalar (value : α)
  | macd (line signal histogram : α)
  | stochastic (k d : α)
  | bollinger (upper middle lower : α)
  | pivot (pivot r1 r2 r3 s1 s2 s3 : α)

-- A field that does not belong to the reading is not there.
def Reading.get? {α : Type} : Reading α → Field → Option α
  | scalar v, .value => some v
  | macd l _ _, .line => some l
  | macd _ s _, .signal => some s
  | macd _ _ h, .histogram => some h
  | stochastic k _, .k => some k
  | stochastic _ d, .d => some d
  | bollinger u _ _, .upper => some u
  | bollinger _ m _, .middle => some m
  | bollinger _ _ l, .lower => some l
  | pivot p _ _ _ _ _ _, .pivot => some p
  | pivot _ r _ _ _ _ _, .r1 => some r
  | pivot _ _ r _ _ _ _, .r2 => some r
  | pivot _ _ _ r _ _ _, .r3 => some r
  | pivot _ _ _ _ s _ _, .s1 => some s
  | pivot _ _ _ _ _ s _, .s2 => some s
  | pivot _ _ _ _ _ _ s, .s3 => some s
  | _, _ => none

-- A point is not valid while its indicator is warming up. Its reading then holds what has been
-- computed so far, and zeros.
structure Point (α : Type) where
  date : Date
  valid : Bool
  reading : Reading α

-- The history of an indicator, one point per bar.
structure Series (α : Type) where
  spec : Spec α
  points : List (Point α)

namespace Series

variable {α : Type}

-- What can be read at a bar: nothing outside the bars, and nothing during warm-up.
def valueAt? (s : Series α) (index : Int) (f : Field) : Option α :=
  if index < 0 then none
  else
    match s.points[index.toNat]? with
    | some p => if p.valid then p.reading.get? f else none
    | none => none

def firstValid? (s : Series α) : Option Nat :=
  s.points.findIdx? (·.valid)

end Series

end BarReplay.Indicator
