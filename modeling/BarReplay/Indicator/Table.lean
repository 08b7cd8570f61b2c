import BarReplay.Indicator.Composite

namespace BarReplay.Indicator

variable {α : Type} [Amount α]

-- The points of an indicator over bars in order of date.
def Spec.points (s : Spec α) (bars : List (Bar α)) : Except Fault (List (Point α)) :=
  match s with
  | .windowed .sma n => (simpleAverage n).run bars
  | .windowed .ema n => (exponentialAverage n).run bars
  | .windowed .wma n => (weightedAverage n).run bars
  | .windowed .rsi n => (strengthIndex n).run bars
  | .windowed .roc n => (rateOfChange n).run bars
  | .windowed .atr n => (averageTrueRange n).run bars
  | .windowed .stddev n => (standardDeviation n).run bars
  | .obv => onBalanceVolume.run bars
  | .vwap => volumeWeightedPrice.run bars
  | .macd a b c => (convergence a b c).run bars
  | .stochastic a b => (Indicator.stochastic a b).run bars
  | .bollinger n m => (Indicator.bollinger n m).run bars
  | .pivot => pivots.run bars

def Spec.series (s : Spec α) (bars : List (Bar α)) : Except Fault (Series α) := do
  return ⟨s, ← s.points bars⟩

-- Series that have been computed, under the spec that first asked for each, in the order of
-- those requests.
abbrev Table (α : Type) := List (Spec α × Series α)

namespace Table

def find? (t : Table α) (s : Spec α) : Option (Series α) :=
  (List.find? (fun (entry : Spec α × Series α) => entry.1.same s) t).map Prod.snd

-- The series of a spec over fixed bars; it is computed if no equal spec has asked before.
def get (bars : List (Bar α)) (s : Spec α) (t : Table α) : Except Fault (Series α × Table α) :=
  match t.find? s with
  | some series => .ok (series, t)
  | none => do
    let series ← s.series bars
    return (series, t ++ [(s, series)])

-- The table after asking for each spec in turn.
def ofSpecs (bars : List (Bar α)) (specs : List (Spec α)) : Except Fault (Table α) :=
  specs.foldlM (fun t s => do return (← t.get bars s).2) []

end Table

end BarReplay.Indicator
