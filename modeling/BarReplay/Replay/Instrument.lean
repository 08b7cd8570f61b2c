import BarReplay.Rule.Evaluation
import BarReplay.Strategy

namespace BarReplay

open Indicator

-- An instrument with its bars by date and the series that its rules read.
structure Instrument (α : Type) where
  code : String
  exchange : String
  chart : Chart α

namespace Instrument

variable {α : Type}

def bars (i : Instrument α) : List (Bar α) := i.chart.bars

-- Sorts the bars and computes the given series, then those of the strategy.
def ofBars [Amount α] (code exchange : String) (bars : List (Bar α))
    (strategy : Option (Strategy α)) (specs : List (Spec α)) : Except Fault (Instrument α) := do
  let sorted := sortBars bars
  let wanted := specs ++ (strategy.map Strategy.indicators).getD []
  return ⟨code, exchange, sorted, ← Table.ofSpecs sorted wanted⟩

-- The last bar of a date.
def indexOf? (i : Instrument α) (day : Date) : Option Nat :=
  (i.bars.reverse.findIdx? fun b => b.date == day).map fun k => i.bars.length - 1 - k

end Instrument

-- Drops neighbours that are equal.
def withoutRepeats : List Date → List Date
  | d :: e :: ds => if d = e then withoutRepeats (e :: ds) else d :: withoutRepeats (e :: ds)
  | ds => ds

-- Dates in order, each once.
def sortDates (ds : List Date) : List Date :=
  withoutRepeats (ds.mergeSort fun a b => decide (a ≤ b))

-- Every date on which some instrument has a bar.
def calendar {α : Type} (instruments : List (Instrument α)) : List Date :=
  sortDates (instruments.flatMap fun i => i.bars.map (·.date))

end BarReplay
