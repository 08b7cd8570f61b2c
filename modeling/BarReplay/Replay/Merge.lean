import BarReplay.Replay.Engine

namespace BarReplay

open Amount

-- Why results cannot be put together.
inductive MergeError where
  | noResults
  | openTwice (code : String)
  deriving DecidableEq

def MergeError.message : MergeError → String
  | noResults => "merge_results() needs at least one result"
  | openTwice code => "Instrument " ++ code ++ " is open in more than one result"

namespace Merge

variable {α : Type}

-- Adds positions one by one; an instrument is held once.
def addPositions (held : List (Position α)) :
    List (Position α) → Except MergeError (List (Position α))
  | [] => .ok held
  | p :: ps =>
    if held.any (·.code == p.code) then .error (.openTwice p.code)
    else addPositions (held ++ [p]) ps

-- The equity that a curve gives for a day, the last one of several.
def equityOn? (curve : List (EquityPoint α)) (day : Date) : Option α :=
  (curve.reverse.find? fun p => p.date == day).map (·.equity)

-- Adds curves up day by day. A curve without a point on a day counts with the equity it had
-- last, which is given with each curve.
def addCurves [Amount α] (curves : List (List (EquityPoint α) × α)) :
    List Date → List (EquityPoint α)
  | [] => []
  | day :: days =>
    let curves := curves.map fun (curve, last) => (curve, (equityOn? curve day).getD last)
    ⟨day, sum (curves.map Prod.snd)⟩ :: addCurves curves days

def sortTrades (trades : List (ClosedTrade α)) : List (ClosedTrade α) :=
  trades.mergeSort fun a b => decide (a.exitDate ≤ b.exitDate)

-- Each text once, in order of first appearance.
def distinct (codes : List String) : List String :=
  codes.foldl (fun seen c => if seen.contains c then seen else seen ++ [c]) []

end Merge

-- One result made of several that ran independently: money is added up, equity day by day, and
-- trades are put in order of exit. Strategy, settings and exchange are those of the first.
def Result.merge {α : Type} [Amount α] (results : List (Result α)) :
    Except MergeError (Result α) :=
  match results with
  | [] => .error .noResults
  | first :: _ => do
    let portfolios := results.map (·.portfolio)
    let positions ← Merge.addPositions [] (portfolios.flatMap (·.positions))
    let days := sortDates (portfolios.flatMap fun p => p.curve.map (·.date))
    return {
      strategy := first.strategy
      settings := first.settings
      portfolio :=
        { initialCapital := sum (portfolios.map (·.initialCapital))
          cash := sum (portfolios.map (·.cash))
          positions := positions
          trades := Merge.sortTrades (portfolios.flatMap (·.trades))
          curve := Merge.addCurves (portfolios.map fun p => (p.curve, p.initialCapital)) days }
      codes := Merge.distinct (results.flatMap (·.codes))
      exchange := first.exchange
      skipped := results.flatMap (·.skipped) }

end BarReplay
