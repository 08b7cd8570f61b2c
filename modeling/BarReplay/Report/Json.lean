import BarReplay.Json.Basic
import BarReplay.Metrics.Performance
import BarReplay.Replay.Engine
import BarReplay.Rule.Text

namespace BarReplay

def Json.ofOption {β : Type} (f : β → Json) : Option β → Json
  | some x => f x
  | none => null

def Json.ofList {β : Type} (f : β → Json) (xs : List β) : Json :=
  list (xs.map f)

def Date.toJson (d : Date) : Json := .text d.iso

def Bar.toJson (code exchange : Json) (b : Bar Float) : Json :=
  .list [code, exchange, b.date.toJson, .real b.opening, .real b.high, .real b.low, .real b.close,
    .real b.volume]

def Position.toJson (p : Position Float) : Json :=
  .list [.text p.code, .text p.exchange, .int p.quantity, .real p.entryPrice, p.entryDate.toJson,
    .real p.stopLoss, .real p.takeProfit, .real p.entryCommission]

def ClosedTrade.toJson (t : ClosedTrade Float) : Json :=
  .list [.text t.code, .text t.exchange, .int t.quantity, .real t.entryPrice, .real t.exitPrice,
    t.entryDate.toJson, t.exitDate.toJson, .real t.pnl]

def EquityPoint.toJson (p : EquityPoint Float) : Json :=
  .list [p.date.toJson, .real p.equity]

def Skip.toJson (s : Skip) : Json :=
  .object [("code", .text s.code), ("reason", .text s.reason.name), ("bars", .int s.bars),
    ("detail", .text s.detail), ("minimum", .int s.minimum), ("text", .text s.describe)]

def ProfitFactor.toJson : ProfitFactor Float → Json
  | ratio x => .real x
  | unbounded => .text "inf"

def TradeStats.members (t : TradeStats Float) : List (String × Json) :=
  [("total_trades", .int t.total), ("winning_trades", .int t.winning),
    ("losing_trades", .int t.losing), ("breakeven_trades", .int t.breakeven),
    ("win_rate", .real t.winRate), ("profit_factor", t.profitFactor.toJson),
    ("total_pnl", .real t.totalPnl), ("avg_win", .real t.averageWin),
    ("avg_loss", .real t.averageLoss), ("largest_win", .real t.largestWin),
    ("largest_loss", .real t.largestLoss), ("avg_trade_duration", .real t.averageDays)]

def InstrumentStats.toJson (i : InstrumentStats Float) : Json :=
  .object (i.stats.members ++
    [("code", .text i.code), ("exchange", .text i.exchange), ("key", .text i.code)])

def Drawdown.toJson (d : Drawdown Float) : Json :=
  .object [("max_drawdown", .real d.fraction), ("max_drawdown_dollar", .real d.amount),
    ("peak_equity", .real d.peakEquity), ("trough_equity", .real d.troughEquity),
    ("duration", .int d.duration), ("peak_date", .ofOption Date.toJson d.peakDate),
    ("trough_date", .ofOption Date.toJson d.troughDate)]

def Performance.toJson (m : Performance Float) : Json :=
  .object (m.trades.members ++
    [("initial_capital", .real m.initialCapital), ("final_equity", .real m.finalEquity),
      ("total_return", .real m.totalReturn), ("annualized_return", .real m.annualizedReturn),
      ("sharpe_ratio", .real m.sharpe), ("sortino_ratio", .real m.sortino),
      ("max_drawdown", .real m.drawdown.fraction), ("drawdown", m.drawdown.toJson),
      ("by_instrument", .ofList InstrumentStats.toJson m.byInstrument)])

def Result.members (r : Result Float) : List (String × Json) :=
  let p := r.portfolio
  [("codes", .ofList .text r.codes), ("exchange", .text r.exchange), ("cash", .real p.cash),
    ("initial", .real p.initialCapital), ("equity", .ofList EquityPoint.toJson p.curve),
    ("trades", .ofList ClosedTrade.toJson p.trades),
    ("positions", .ofList Position.toJson p.positions),
    ("skipped", .ofList Skip.toJson r.skipped), ("multi", .bool r.severalInstruments),
    ("start", .ofOption Date.toJson r.startDate?), ("end", .ofOption Date.toJson r.endDate?)]

def Settings.toJson (s : Settings Float) : Json :=
  .object [("start_date", .ofOption Date.toJson s.startDate),
    ("end_date", .ofOption Date.toJson s.endDate), ("initial_capital", .real s.initialCapital),
    ("commission_per_trade", .real s.commissionPerTrade), ("commission_pct", .real s.commissionPct),
    ("slippage_pct", .real s.slippagePct), ("allow_shorting", .bool s.allowShorting),
    ("risk_free_rate", .real s.riskFreeRate)]

-- A strategy with its rules as text.
def Strategy.toJson (s : Strategy Float) : Json :=
  let rule (r : Rule Float) : Json := .text r.text
  .object [("name", .text s.name), ("description", .text s.description),
    ("max_positions", .int s.maxPositions), ("entry_long", rule s.entryLong),
    ("exit_long", rule s.exitLong), ("entry_short", .ofOption rule s.entryShort),
    ("exit_short", .ofOption rule s.exitShort), ("position_size", .real s.positionSize),
    ("stop_loss_pct", .real s.stopLossPct), ("take_profit_pct", .real s.takeProfitPct),
    ("indicators", .ofList (fun i => .text i.text) s.indicators)]

end BarReplay
