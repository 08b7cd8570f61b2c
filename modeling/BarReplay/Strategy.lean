import BarReplay.Rule.Basic
import BarReplay.Calendar.Date

namespace BarReplay

open Indicator

-- When to enter and to leave, and how much to commit.
structure Strategy (α : Type) where
  name : String
  description : String
  entryLong : Rule α
  exitLong : Rule α
  entryShort : Option (Rule α)
  exitShort : Option (Rule α)
  -- the fraction of the cash that one entry commits
  positionSize : α
  -- distances from the entry price in percent; zero is off
  stopLossPct : α
  takeProfitPct : α
  maxPositions : Int

-- The rules of a strategy in the order in which they are read.
def Strategy.rules {α : Type} (s : Strategy α) : List (Rule α) :=
  [s.entryLong, s.exitLong] ++ s.entryShort.toList ++ s.exitShort.toList

-- The distinct indicators that a strategy reads.
def Strategy.indicators {α : Type} [Amount α] (s : Strategy α) : List (Spec α) :=
  Spec.distinct (s.rules.flatMap Rule.specs)

-- What fills cost, and whether shares may be sold short.
structure Execution (α : Type) where
  commissionFlat : α
  commissionPct : α
  slippagePct : α
  allowShorting : Bool

-- The settings of a run.
structure Settings (α : Type) where
  startDate : Option Date
  endDate : Option Date
  initialCapital : α
  commissionPerTrade : α
  commissionPct : α
  slippagePct : α
  allowShorting : Bool
  riskFreeRate : α

def Settings.execution {α : Type} (s : Settings α) : Execution α :=
  ⟨s.commissionPerTrade, s.commissionPct, s.slippagePct, s.allowShorting⟩

-- Settings where nothing is said: a hundred thousand in cash, no costs, no short sales, and
-- five percent of interest.
def Settings.standard {α : Type} [Amount α] : Settings α where
  startDate := none
  endDate := none
  initialCapital := Amount.whole 100000
  commissionPerTrade := 0
  commissionPct := 0
  slippagePct := 0
  allowShorting := false
  riskFreeRate := Amount.ratio 5 100

end BarReplay
