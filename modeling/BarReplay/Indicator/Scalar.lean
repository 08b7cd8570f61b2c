import BarReplay.Amount.ExactSum
import BarReplay.Indicator.SeededAverage
import BarReplay.Indicator.Study

namespace BarReplay.Indicator

open Amount

variable {α : Type} [Amount α]

-- The simple moving average of closes, as a running total.
def simpleAverage (period : Nat) : Study α α where
  start := .ok 0
  step total m :=
    let total := total + m.bar.close
    let total :=
      match m.ago? period with
      | some b => total - b.close
      | none => total
    let full := decide (period ≤ m.index + 1)
    .ok (total, full, .scalar (if full then total / whole period else 0))

-- The exponential moving average of closes.
def exponentialAverage (period : Nat) : Study α (α × SeededAverage α) where
  start := do return (← SeededAverage.fraction period, .empty)
  step := fun (k, average) m =>
    let average := average.push period (SeededAverage.exponential k) m.bar.close
    .ok ((k, average), average.ready period, .scalar average.average)

-- The linearly weighted average of closes, kept up to date with two running sums.
structure WeightedState (α : Type) where
  divisor : α
  weighted : α
  total : α

def weightedAverage (period : Nat) : Study α (WeightedState α) where
  start := do
    let n ← ofInt ((period * (period + 1) : Nat) : Int)
    return ⟨n / whole 2, 0, 0⟩
  step s m :=
    let close := m.bar.close
    let s : WeightedState α :=
      match m.ago? period with
      -- every weight moves down by one, and the new close has full weight
      | some b =>
        { s with
          weighted := s.weighted + (whole period * close - s.total)
          total := s.total + (close - b.close) }
      | none =>
        { s with
          weighted := s.weighted + whole (m.index + 1) * close
          total := s.total + close }
    let full := decide (period ≤ m.index + 1)
    .ok (s, full, .scalar (if full then s.weighted / s.divisor else 0))

-- How much a close is above the one before it, and how much it is below.
def gain (change : α) : α :=
  if 0 < change then change else 0

def loss (change : α) : α :=
  if change < 0 then -change else 0

-- The share of gains in all movement, between 0 and 100.
def relativeStrength (averageGain averageLoss : α) : α :=
  if same averageLoss 0 then whole 100
  else whole 100 - whole 100 / (1 + averageGain / averageLoss)

-- Wilder's relative strength index.
def strengthIndex (period : Nat) : Study α (SeededAverage α × SeededAverage α) where
  start := .ok (.empty, .empty)
  step := fun (gains, losses) m =>
    match m.ago? 1 with
    | none => .ok ((gains, losses), false, .scalar 0)
    | some previous =>
      let change := m.bar.close - previous.close
      let gains := gains.push period (SeededAverage.wilder period) (gain change)
      let losses := losses.push period (SeededAverage.wilder period) (loss change)
      let value :=
        if gains.ready period then relativeStrength gains.average losses.average else 0
      .ok ((gains, losses), gains.ready period, .scalar value)

-- The percentage by which the close moved over `period` bars; zero after a zero close.
def rateOfChange (period : Nat) : Study α Unit where
  start := .ok ()
  step _ m :=
    match m.ago? period with
    | none => .ok ((), false, .scalar 0)
    | some b =>
      let value :=
        if same b.close 0 then 0 else (m.bar.close - b.close) / b.close * whole 100
      .ok ((), true, .scalar value)

-- Wilder's average of the true range.
def averageTrueRange (period : Nat) : Study α (SeededAverage α) where
  start := .ok .empty
  step average m :=
    let range := m.bar.trueRange ((m.ago? 1).map Bar.close)
    let average := average.push period (SeededAverage.wilder period) range
    .ok (average, average.ready period, .scalar average.average)

-- The mean and the standard deviation of a whole population.
def populationStats (xs : List α) : Except Fault (α × α) := do
  let n := whole xs.length
  let mean := (← exactSum xs) / n
  let squares ← xs.mapM fun x => square (x - mean)
  let variance := (← exactSum squares) / n
  return (mean, sqrt variance)

-- The mean and standard deviation of the last `period` closes, once there are so many.
def closeStats? (period : Nat) (m : Moment α) : Except Fault (Option (α × α)) := do
  if period ≤ m.index + 1 then
    let stats ← populationStats ((m.window period).map Bar.close)
    return some stats
  else
    return none

def standardDeviation (period : Nat) : Study α Unit where
  start := .ok ()
  step _ m := do
    match ← closeStats? period m with
    | some (_, deviation) => return ((), true, .scalar deviation)
    | none => return ((), false, .scalar 0)

-- Volume added on days that close higher and subtracted on days that close lower.
def onBalanceVolume : Study α α where
  start := .ok 0
  step total m :=
    let total :=
      match m.ago? 1 with
      | none => m.bar.volume
      | some previous =>
        if previous.close < m.bar.close then total + m.bar.volume
        else if m.bar.close < previous.close then total - m.bar.volume
        else total
    .ok (total, true, .scalar total)

-- The average typical price weighted by volume; the typical price itself while there has
-- been no volume.
def volumeWeightedPrice : Study α (α × α) where
  start := .ok (0, 0)
  step := fun (worth, volume) m =>
    let typical := m.bar.typicalPrice
    let worth := worth + typical * m.bar.volume
    let volume := volume + m.bar.volume
    .ok ((worth, volume), true, .scalar (if 0 < volume then worth / volume else typical))

end BarReplay.Indicator
