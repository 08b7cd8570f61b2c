import BarReplay.Decimal.Format
import BarReplay.Metrics.Performance
import BarReplay.Replay.Engine

namespace BarReplay.Report

open Decimal

-- Money: two places, a comma between thousands.
def money : FixedFormat := { places := 2, grouping := true }

-- Prices and percentages.
def twoPlaces : FixedFormat := { places := 2 }

def threePlaces : FixedFormat := { places := 3 }

def onePlace : FixedFormat := { places := 1 }

def padLeft (width : Nat) (s : String) : String :=
  String.ofList (List.replicate (width - s.length) ' ') ++ s

def padRight (width : Nat) (s : String) : String :=
  s ++ String.ofList (List.replicate (width - s.length) ' ')

def rule (c : Char) : String :=
  String.ofList (List.replicate 60 c)

def heading (title : String) : List String :=
  [rule '-', title, rule '-']

def dollars (width : Nat) (x : Float) : String :=
  "$" ++ padLeft width (money.text x)

def percent (f : FixedFormat) (width : Nat) (x : Float) : String :=
  padLeft width (f.text (x * 100.0)) ++ "%"

def count (width n : Nat) : String :=
  padLeft width (Decimal.text n)

def profitFactor : ProfitFactor Float → String
  | .ratio x => twoPlaces.text x
  | .unbounded => "inf"

def side (long : Bool) : String :=
  padRight 5 (if long then "long" else "short")

def dateText : Option Date → String
  | some d => d.iso
  | none => "None"

def header (r : Result Float) : List String :=
  [rule '=', "RULE BACKTESTER -- BACKTEST REPORT", rule '=',
    "Strategy:         " ++ r.strategy.name] ++
  (if r.strategy.description.isEmpty then []
    else ["Description:      " ++ r.strategy.description]) ++
  (if r.codes.isEmpty then []
    else ["Instruments:      " ++ ", ".intercalate r.codes ++ " (" ++ r.exchange ++ ")"]) ++
  (match r.startDate?, r.endDate? with
    | some first, some last => ["Period:           " ++ first.short ++ " to " ++ last.short]
    | _, _ => []) ++
  ["Trading days:     " ++ padLeft 14 (grouped r.portfolio.curve.length)] ++
  r.skipped.map (fun s => "Skipped:          " ++ s.describe) ++
  [""]

def returns (m : Performance Float) : List String :=
  heading "RETURNS" ++
  [ "Initial capital:  " ++ dollars 14 m.initialCapital,
    "Final equity:     " ++ dollars 14 m.finalEquity,
    "Realised P&L:     " ++ dollars 14 m.trades.totalPnl,
    "Total return:     " ++ percent twoPlaces 14 m.totalReturn,
    "Annualised return:" ++ percent twoPlaces 14 m.annualizedReturn,
    "" ]

def risk (m : Performance Float) : List String :=
  heading "RISK METRICS" ++
  [ "Sharpe ratio:     " ++ padLeft 14 (threePlaces.text m.sharpe),
    "Sortino ratio:    " ++ padLeft 14 (threePlaces.text m.sortino),
    "Max drawdown:     " ++ percent twoPlaces 13 m.drawdown.fraction,
    "Max drawdown $:   " ++ dollars 14 m.drawdown.amount,
    "Drawdown days:    " ++ count 14 m.drawdown.duration ] ++
  (if 0.0 < m.drawdown.fraction then
    [ "  Peak:           " ++ dateText m.drawdown.peakDate,
      "  Trough:         " ++ dateText m.drawdown.troughDate ]
    else []) ++
  [""]

def statistics (t : TradeStats Float) : List String :=
  heading "TRADE STATISTICS" ++
  [ "Total trades:     " ++ count 14 t.total,
    "Winning trades:   " ++ count 14 t.winning,
    "Losing trades:    " ++ count 14 t.losing,
    "Breakeven trades: " ++ count 14 t.breakeven,
    "Win rate:         " ++ percent onePlace 13 t.winRate,
    "Profit factor:    " ++ padLeft 14 (profitFactor t.profitFactor),
    "",
    "Avg win:          " ++ dollars 14 t.averageWin,
    "Avg loss:         " ++ dollars 14 t.averageLoss,
    "Largest win:      " ++ dollars 14 t.largestWin,
    "Largest loss:     " ++ dollars 14 t.largestLoss,
    "Avg holding days: " ++ padLeft 14 (onePlace.text t.averageDays),
    "" ]

-- A quantity that no amount can hold cannot be written.
def openPosition (p : Position Float) : Except Fault String := do
  let quantity ← Double.wholeOf p.quantity
  return "  " ++ padRight 8 p.code ++ " " ++ side p.isLong ++ " qty=" ++ generalInt quantity ++
    " entry=$" ++ twoPlaces.text p.entryPrice ++ " since=" ++ p.entryDate.iso

def openPositions (positions : List (Position Float)) : Except Fault (List String) := do
  if positions.isEmpty then return []
  else
    let lines ← positions.mapM openPosition
    return heading ("OPEN POSITIONS AT END (" ++ Decimal.text positions.length ++ ")") ++ lines ++
      [""]

def tradeLine (t : ClosedTrade Float) : String :=
  "  " ++ padRight 8 t.code ++ " " ++ side t.isLong ++ " " ++ t.entryDate.iso ++ " -> " ++
    t.exitDate.iso ++ " " ++ padLeft 9 (twoPlaces.text t.entryPrice) ++ " -> " ++
    padLeft 9 (twoPlaces.text t.exitPrice) ++ "  P&L " ++ dollars 11 t.pnl

def tradeLog (trades : List (ClosedTrade Float)) : List String :=
  if trades.isEmpty then []
  else heading "TRADE LOG" ++ trades.map tradeLine ++ [""]

def instrument (i : InstrumentStats Float) : List String :=
  [ "  " ++ i.code,
    "    Trades:       " ++ count 8 i.stats.total,
    "    Win rate:     " ++ percent onePlace 7 i.stats.winRate,
    "    Total P&L:    " ++ dollars 10 i.stats.totalPnl,
    "    Profit factor:" ++ padLeft 10 (profitFactor i.stats.profitFactor),
    "" ]

-- Instruments in alphabetical order, for a run over several.
def perInstrument (r : Result Float) (m : Performance Float) : List String :=
  if r.severalInstruments && !m.byInstrument.isEmpty then
    heading "PER-INSTRUMENT BREAKDOWN" ++
      (m.byInstrument.mergeSort fun a b => decide (¬ b.code < a.code)).flatMap instrument
  else []

-- The report on a finished run.
def text (r : Result Float) (m : Performance Float) : Except Fault String := do
  let positions ← openPositions r.portfolio.positions
  let lines := header r ++ returns m ++ risk m ++ statistics m.trades ++ positions ++
    tradeLog r.portfolio.trades ++ perInstrument r m ++
    [rule '=', "END OF REPORT", rule '=']
  return "\n".intercalate lines

end BarReplay.Report
