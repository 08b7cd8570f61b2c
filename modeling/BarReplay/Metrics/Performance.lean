import BarReplay.Metrics.Drawdown
import BarReplay.Metrics.TradeStats
import BarReplay.Portfolio.Basic

namespace BarReplay

namespace Metrics

open Amount

variable {α : Type} [Amount α]

def tradingDays : Nat := 252

-- The change from one equity to the next; zero where there is nothing to relate it to.
def simpleReturn (previous current : α) : α :=
  if 0 < previous then (current - previous) / previous else 0

def dailyReturns (curve : List (EquityPoint α)) : List α :=
  curve.zipWith (fun p q => simpleReturn p.equity q.equity) curve.tail

-- How the sum, the mean and the standard deviation of a whole population are calculated.
structure Statistics (α : Type) where
  sum : List α → α
  mean : List α → α
  deviation : List α → α

-- The mean shortfall below a rate; returns above it count as none.
def shortfall (statistics : Statistics α) (rate : α) (xs : List α) : α :=
  let below := xs.filter (· < rate)
  if below.isEmpty then 0
  else sqrt (statistics.sum (below.map fun x => (x - rate) * (x - rate)) / whole xs.length)

-- The yearly excess return per unit of risk; zero without risk.
def perRisk (excess risk : α) : α :=
  if 0 < risk then excess / risk * sqrt (whole tradingDays) else 0

def dailyRate (yearly : α) : α :=
  yearly / whole tradingDays

def sharpe (statistics : Statistics α) (returns : List α) (riskFreeRate : α) : α :=
  if returns.isEmpty then 0
  else
    perRisk (statistics.mean returns - dailyRate riskFreeRate) (statistics.deviation returns)

def sortino (statistics : Statistics α) (returns : List α) (riskFreeRate : α) : α :=
  if returns.isEmpty then 0
  else
    let rate := dailyRate riskFreeRate
    perRisk (statistics.mean returns - rate) (shortfall statistics rate returns)

-- The yearly return that compounds to a total return over some points of a curve; all is lost
-- when nothing is left.
def annualized (totalReturn : α) (points : Int) : Except Fault α :=
  if points < 2 then .ok 0
  else
    let growth := 1 + totalReturn
    if growth ≤ 0 then .ok (-1)
    else do
      return (← power growth (ratio tradingDays (points - 1).toNat)) - 1

end Metrics

-- What a finished portfolio comes to.
structure Performance (α : Type) where
  initialCapital : α
  finalEquity : α
  totalReturn : α
  annualizedReturn : α
  sharpe : α
  sortino : α
  drawdown : Drawdown α
  trades : TradeStats α
  byInstrument : List (InstrumentStats α)

def Portfolio.performance {α : Type} [Amount α] (p : Portfolio α)
    (statistics : Metrics.Statistics α) (riskFreeRate : α) : Except Fault (Performance α) := do
  let initial := p.initialCapital
  let totalReturn := if 0 < initial then p.finalEquity / initial - 1 else 0
  let returns := Metrics.dailyReturns p.curve
  return {
    initialCapital := initial
    finalEquity := p.finalEquity
    totalReturn := totalReturn
    annualizedReturn := ← Metrics.annualized totalReturn p.curve.length
    sharpe := Metrics.sharpe statistics returns riskFreeRate
    sortino := Metrics.sortino statistics returns riskFreeRate
    drawdown := Drawdown.of p.curve
    trades := TradeStats.of p.trades
    byInstrument := breakdown p.trades }

end BarReplay
