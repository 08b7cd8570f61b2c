import BarReplay.Portfolio.Position

namespace BarReplay

open Amount

-- Gains per loss; without a loss there is no bound.
inductive ProfitFactor (α : Type) where
  | ratio (x : α)
  | unbounded

-- What a list of closed trades comes to. Losses are positive.
structure TradeStats (α : Type) where
  total : Nat
  winning : Nat
  losing : Nat
  breakeven : Nat
  winRate : α
  profitFactor : ProfitFactor α
  totalPnl : α
  averageWin : α
  averageLoss : α
  largestWin : α
  largestLoss : α
  averageDays : α

namespace TradeStats

variable {α : Type} [Amount α]

-- The mean of amounts whose sum is given; zero if there are none.
def meanOf (total : α) (count : Nat) : α :=
  if count = 0 then 0 else total / whole count

def largest : List α → α
  | [] => 0
  | x :: xs => maximum x xs

def profitFactorOf (profit loss : α) : ProfitFactor α :=
  if 0 < loss then .ratio (profit / loss)
  else if 0 < profit then .unbounded
  else .ratio 0

def wins (trades : List (ClosedTrade α)) : List α :=
  (trades.map (·.pnl)).filter (0 < ·)

def losses (trades : List (ClosedTrade α)) : List α :=
  ((trades.map (·.pnl)).filter (· < 0)).map (-·)

def of (trades : List (ClosedTrade α)) : TradeStats α :=
  let count := trades.length
  let wins := wins trades
  let losses := losses trades
  { total := count
    winning := wins.length
    losing := losses.length
    breakeven := count - wins.length - losses.length
    winRate := if count = 0 then 0 else ratio wins.length count
    profitFactor := profitFactorOf (sum wins) (sum losses)
    totalPnl := sum (trades.map (·.pnl))
    averageWin := meanOf (sum wins) wins.length
    averageLoss := meanOf (sum losses) losses.length
    largestWin := largest wins
    largestLoss := largest losses
    averageDays :=
      if count = 0 then 0
      else ratio (trades.foldl (fun days t => days + t.holdingDays) 0) count }

end TradeStats

-- The trades of one instrument.
structure InstrumentStats (α : Type) where
  code : String
  exchange : String
  stats : TradeStats α

-- The trades of one instrument, in their order.
structure Bucket (α : Type) where
  first : ClosedTrade α
  later : List (ClosedTrade α)

def Bucket.trades {α : Type} (b : Bucket α) : List (ClosedTrade α) :=
  b.first :: b.later

-- Puts a trade behind those of its code, or behind all if it is the first of its code.
def collect {α : Type} (t : ClosedTrade α) : List (Bucket α) → List (Bucket α)
  | [] => [⟨t, []⟩]
  | b :: buckets =>
    if b.first.code == t.code then ⟨b.first, b.later ++ [t]⟩ :: buckets
    else b :: collect t buckets

def bucketsOf {α : Type} (trades : List (ClosedTrade α)) : List (Bucket α) :=
  trades.foldl (fun buckets t => collect t buckets) []

-- The trades of each instrument on their own, in the order of the first trades. The exchange is
-- that of the first trade.
def breakdown {α : Type} [Amount α] (trades : List (ClosedTrade α)) : List (InstrumentStats α) :=
  (bucketsOf trades).map fun b => ⟨b.first.code, b.first.exchange, TradeStats.of b.trades⟩

end BarReplay
