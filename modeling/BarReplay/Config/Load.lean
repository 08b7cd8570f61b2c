import BarReplay.Calendar.Pattern
import BarReplay.Config.Source
import BarReplay.Rule.Parser
import BarReplay.Strategy

namespace BarReplay.Config

open Text

-- A day of the run.
def Source.date (s : Source) (key : String) : Except Error Date := do
  let raw ← s.require "backtest" key
  match Calendar.Item.parse? Calendar.isoDate raw with
  | some d => .ok d
  | none => .error (.invalid "backtest" key (.dateFormat key))

-- Refuses a value under a key unless a condition holds.
def check (condition : Bool) (sect key : String) (reason : Reason) : Except Error Unit :=
  if condition then .ok () else .error (.invalid sect key reason)

def checkNotNegative (sect key : String) (x : Float) : Except Error Unit :=
  check (!decide (x < 0)) sect key (.negative key)

-- The settings of a run. Values are read in order and then checked in order.
def loadSettings (s : Source) : Except Error (Settings Float) := do
  let standard : Settings Float := Settings.standard
  let start ← s.date "start_date"
  let last ← s.date "end_date"
  check (decide (start < last)) "backtest" "start_date" .dateOrder
  let capital ← s.float "backtest" "initial_capital" standard.initialCapital
  let flat ← s.float "backtest" "commission_per_trade" standard.commissionPerTrade
  let pct ← s.float "backtest" "commission_pct" standard.commissionPct
  let slippage ← s.float "backtest" "slippage_pct" standard.slippagePct
  let shorting ← s.bool "backtest" "allow_shorting" standard.allowShorting
  let rate ← s.float "backtest" "risk_free_rate" standard.riskFreeRate
  check (!decide (capital ≤ 0)) "backtest" "initial_capital" (.notPositive "initial_capital")
  checkNotNegative "backtest" "commission_per_trade" flat
  checkNotNegative "backtest" "commission_pct" pct
  checkNotNegative "backtest" "slippage_pct" slippage
  check (decide (0 ≤ rate) && decide (rate < 1)) "backtest" "risk_free_rate" .rateRange
  return ⟨some start, some last, capital, flat, pct, slippage, shorting, rate⟩

def loadExchange (s : Source) : Except Error String := do
  return upper (← s.require "backtest" "exchange")

-- The codes of a run: those given apart from the settings, then a list, then a single code.
def resolveCodes (s : Source) (given : Option String) : Except Error (List String) :=
  match given.filter (!·.isEmpty) with
  | some text => (Universe.parseCodes text).mapError .codes
  | none =>
    match s.filled? "backtest" "codes" with
    | some text => (Universe.parseCodes text).mapError .codes
    | none =>
      match s.filled? "backtest" "code" with
      | some code => .ok [upper (strip code)]
      | none => .error (.missing "backtest" "code")

-- A rule of the strategy, if there is text for it.
def Source.rule? (s : Source) (key : String) : Except Error (Option (Rule Float)) :=
  match s.filled? "strategy" key with
  | none => .ok none
  | some text =>
    match Rule.parse text with
    | .ok r => .ok (some r)
    | .error e => .error (.rule (e.withKey key))

def Source.rule (s : Source) (key : String) : Except Error (Rule Float) := do
  match ← s.rule? key with
  | some r => .ok r
  | none => .error (.missing "strategy" key)

-- A text of the strategy; an empty one counts as missing.
def Source.label (s : Source) (key default : String) : String :=
  strip (((s "strategy" key).filter (!·.isEmpty)).getD default)

-- The strategy. Numbers are checked one by one before the rules are read.
def loadStrategy (s : Source) : Except Error (Strategy Float) := do
  let size ← s.float "strategy" "position_size" 0.25
  check (decide (0 < size) && decide (size ≤ 1)) "strategy" "position_size" .sizeRange
  let stop ← s.float "strategy" "stop_loss" 0
  checkNotNegative "strategy" "stop_loss" stop
  let take ← s.float "strategy" "take_profit" 0
  checkNotNegative "strategy" "take_profit" take
  let positions ← s.int "strategy" "max_positions" 1
  check (decide (1 ≤ positions)) "strategy" "max_positions" .fewPositions
  let entryLong ← s.rule "entry_long"
  let exitLong ← s.rule "exit_long"
  let entryShort ← s.rule? "entry_short"
  let exitShort ← s.rule? "exit_short"
  return ⟨s.label "name" "Unnamed", s.label "description" "", entryLong, exitLong, entryShort,
    exitShort, size, stop, take, positions⟩

end BarReplay.Config
