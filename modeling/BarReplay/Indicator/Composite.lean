import BarReplay.Indicator.Scalar

namespace BarReplay.Indicator

open Amount

variable {α : Type} [Amount α]

-- Two exponential averages of the closes, the sum of the lines that the signal starts with, and
-- the signal.
structure ConvergenceState (α : Type) where
  fastFraction : α
  slowFraction : α
  signalFraction : α
  fast : SeededAverage α
  slow : SeededAverage α
  seed : α
  signal : α

-- The line is there when both averages of the closes are. The signal starts with the mean of the
-- first `signal` lines.
def convergence (fast slow signal : Nat) : Study α (ConvergenceState α) where
  start := do
    return ⟨← SeededAverage.fraction fast, ← SeededAverage.fraction slow,
      ← SeededAverage.fraction signal, .empty, .empty, 0, 0⟩
  step s m :=
    let f := s.fast.push fast (SeededAverage.exponential s.fastFraction) m.bar.close
    let g := s.slow.push slow (SeededAverage.exponential s.slowFraction) m.bar.close
    let first := max fast slow - 1
    let full := first + signal - 1
    let line := f.average - g.average
    if m.index < first then
      .ok ({ s with fast := f, slow := g }, false, .macd 0 0 0)
    else if m.index < full then
      .ok ({ s with fast := f, slow := g, seed := s.seed + line }, false, .macd line 0 0)
    else if m.index = full then
      let seed := s.seed + line
      let average := seed / whole signal
      .ok ({ s with fast := f, slow := g, seed := seed, signal := average }, true,
        .macd line average (line - average))
    else
      let average := line * s.signalFraction + s.signal * (1 - s.signalFraction)
      .ok ({ s with fast := f, slow := g, signal := average }, true,
        .macd line average (line - average))

-- Where the close lies in the range of a window, as a percentage; the middle if the range
-- is empty.
def rangePosition (close : α) (window : List (Bar α)) : α :=
  match window with
  | [] => whole 50
  | b :: bs =>
    let highest := maximum b.high (bs.map Bar.high)
    let lowest := minimum b.low (bs.map Bar.low)
    let span := highest - lowest
    if same span 0 then whole 50 else whole 100 * (close - lowest) / span

-- The range position, and its mean over the last `dPeriod` positions. The state holds the
-- positions, latest first.
def stochastic (kPeriod dPeriod : Nat) : Study α (List α) where
  start := .ok []
  step positions m :=
    if kPeriod ≤ m.index + 1 then
      let k := rangePosition m.bar.close (m.window kPeriod)
      let positions := k :: positions
      let recent := (positions.take dPeriod).reverse
      let d := sum recent / whole recent.length
      .ok (positions, decide (dPeriod ≤ positions.length), .stochastic k d)
    else
      .ok (positions, false, .stochastic 0 0)

-- Bands of some standard deviations around the mean of the closes.
def bollinger (period : Nat) (multiplier : α) : Study α Unit where
  start := .ok ()
  step _ m := do
    match ← closeStats? period m with
    | some (middle, deviation) =>
      let band := multiplier * deviation
      return ((), true, .bollinger (middle + band) middle (middle - band))
    | none => return ((), false, .bollinger 0 0 0)

-- Floor pivots of one bar, for the bar after it.
def floorPivots (b : Bar α) : Reading α :=
  let p := (b.high + b.low + b.close) / whole 3
  .pivot p
    (whole 2 * p - b.low)
    (p + (b.high - b.low))
    (b.high + whole 2 * (p - b.low))
    (whole 2 * p - b.high)
    (p - (b.high - b.low))
    (b.low - whole 2 * (b.high - p))

def pivots : Study α Unit where
  start := .ok ()
  step _ m :=
    match m.ago? 1 with
    | none => .ok ((), false, .pivot 0 0 0 0 0 0 0)
    | some previous => .ok ((), true, floorPivots previous)

end BarReplay.Indicator
