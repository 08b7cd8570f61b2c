import BarReplay.Portfolio.Basic
import BarReplay.Strategy

namespace BarReplay

open Amount

variable {α : Type} [Amount α]

namespace Execution

-- A flat fee and a percentage of the traded value.
def commission (e : Execution α) (value : α) : α :=
  e.commissionFlat + value * e.commissionPct / whole 100

-- Slippage moves a price against the trader: up when shares are bought, down when sold.
def buyPrice (e : Execution α) (price : α) : α :=
  price * (1 + e.slippagePct / whole 100)

def sellPrice (e : Execution α) (price : α) : α :=
  price * (1 - e.slippagePct / whole 100)

end Execution

inductive Side where
  | long
  | short
  deriving DecidableEq

namespace Side

-- A sign as an amount.
def sign : Side → α
  | long => 1
  | short => -1

def signed : Side → Int → Int
  | long, q => q
  | short, q => -q

def entryPrice (e : Execution α) : Side → α → α
  | long => e.buyPrice
  | short => e.sellPrice

end Side

inductive RejectReason where
  | zeroQuantity
  | insufficientCash
  | shortingDisabled
  | alreadyOpen
  deriving DecidableEq

def RejectReason.text : RejectReason → String
  | zeroQuantity => "zero_quantity"
  | insufficientCash => "insufficient_cash"
  | shortingDisabled => "shorting_disabled"
  | alreadyOpen => "already_open"

-- What becomes of an order to enter. A rejection is no failure.
inductive Entry (α : Type) where
  | filled (position : Position α) (cost commission : α)
  | rejected (reason : RejectReason)

namespace Portfolio

open Execution

-- The prices of an exit on a loss and on a profit; a long loses below its entry price.
def stopLossPrice (s : Strategy α) (side : Side) (fill : α) : α :=
  if 0 < s.stopLossPct then fill * (1 - side.sign * s.stopLossPct / whole 100) else 0

def takeProfitPrice (s : Strategy α) (side : Side) (fill : α) : α :=
  if 0 < s.takeProfitPct then fill * (1 + side.sign * s.takeProfitPct / whole 100) else 0

-- Opens a position at a fill price, or rejects. It is as large as the committed part of the
-- cash allows, never partly filled, and the cash pays for it with its commission.
def enterAt (code exchange : String) (fill : α) (day : Date) (s : Strategy α) (e : Execution α)
    (side : Side) : Action α (Entry α) := do
  let p ← get
  if p.holds code then
    return .rejected .alreadyOpen
  if ¬ 0 < fill then
    return .rejected .zeroQuantity
  let quantity ← calculated (floor (p.cash * s.positionSize / fill))
  if quantity ≤ 0 then
    return .rejected .zeroQuantity
  let cost := (← calculated (ofInt quantity)) * fill
  let fee := e.commission cost
  if p.cash < cost + fee then
    return .rejected .insufficientCash
  let pos : Position α :=
    { code := code
      exchange := exchange
      quantity := side.signed quantity
      entryPrice := fill
      entryDate := day
      stopLoss := stopLossPrice s side fill
      takeProfit := takeProfitPrice s side fill
      entryCommission := fee }
  set { p with cash := p.cash - (cost + fee) }
  add pos
  return .filled pos cost fee

-- Enters at a quoted price, which slippage turns into the fill price.
def enter (side : Side) (code exchange : String) (price : α) (day : Date) (s : Strategy α)
    (e : Execution α) : Action α (Entry α) :=
  if side = .short ∧ e.allowShorting = false then
    return .rejected .shortingDisabled
  else
    enterAt code exchange (side.entryPrice e price) day s e side

-- Closes the position in an instrument at a quoted price, if there is one. A long is sold and
-- a short bought back; a short gets back what was put into it, with its profit.
def exit (code : String) (price : α) (day : Date) (e : Execution α) :
    Action α (Option (ClosedTrade α)) := do
  if !(← get).holds code then
    return none
  let pos ← remove code
  let fill := if pos.isLong then e.sellPrice price else e.buyPrice price
  let size ← calculated pos.size
  let value := size * fill
  let fee := e.commission value
  let quantity ← calculated (ofInt pos.quantity)
  let pnl := quantity * (fill - pos.entryPrice) - pos.entryCommission - fee
  let returned :=
    if pos.isLong then value - fee
    else size * pos.entryPrice + (size * pos.entryPrice - value) - fee
  let trade : ClosedTrade α :=
    { code := pos.code
      exchange := pos.exchange
      quantity := pos.quantity
      entryPrice := pos.entryPrice
      exitPrice := fill
      entryDate := pos.entryDate
      exitDate := day
      pnl := pnl }
  modify fun p => { p with cash := p.cash + returned, trades := p.trades ++ [trade] }
  return some trade

-- The positions that a map of prices stops or takes, with those prices.
def triggered (p : Portfolio α) (prices : PriceMap α) : List (String × α) :=
  p.positions.filterMap fun pos =>
    match prices.lookup pos.code with
    | none => none
    | some price => if pos.stops price || pos.takes price then some (pos.code, price) else none

-- Closes all of them, in the order in which they were opened, and counts them.
def sweep (prices : PriceMap α) (day : Date) (e : Execution α) : Action α Nat := do
  let due := triggered (← get) prices
  for (code, price) in due do
    let _ ← exit code price day e
  return due.length

end Portfolio

end BarReplay
