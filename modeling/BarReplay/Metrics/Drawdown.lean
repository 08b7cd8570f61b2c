import BarReplay.Portfolio.Position

namespace BarReplay

-- The largest fall of a curve below its running peak, as a fraction of the peak, and the
-- longest time below a peak in points.
structure Drawdown (α : Type) where
  fraction : α
  amount : α
  duration : Nat
  peakEquity : α
  troughEquity : α
  peakDate : Option Date
  troughDate : Option Date

namespace Drawdown

variable {α : Type} [Amount α]

-- The running peak, how many points the curve has been below it, and the result so far.
structure State (α : Type) where
  peak : EquityPoint α
  below : Nat
  found : Drawdown α

def step (s : State α) (p : EquityPoint α) : State α :=
  if s.peak.equity ≤ p.equity then
    { s with peak := if s.peak.equity < p.equity then p else s.peak, below := 0 }
  else
    let below := s.below + 1
    let found := { s.found with duration := max s.found.duration below }
    let fall := (s.peak.equity - p.equity) / s.peak.equity
    if 0 < s.peak.equity ∧ found.fraction < fall then
      { s with
        below := below
        found :=
          { fraction := fall
            amount := s.peak.equity - p.equity
            duration := found.duration
            peakEquity := s.peak.equity
            troughEquity := p.equity
            peakDate := some s.peak.date
            troughDate := some p.date } }
    else
      { s with below := below, found := found }

def of (curve : List (EquityPoint α)) : Drawdown α :=
  match curve with
  | [] => ⟨0, 0, 0, 0, 0, none, none⟩
  | p :: _ =>
    (curve.foldl step ⟨p, 0, ⟨0, 0, 0, p.equity, p.equity, some p.date, some p.date⟩⟩).found

end Drawdown

end BarReplay
