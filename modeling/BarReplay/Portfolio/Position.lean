import BarReplay.Amount
import BarReplay.Calendar.Date

namespace BarReplay

open Amount

-- Shares held: a positive quantity is long, a negative one short.
structure Position (α : Type) where
  code : String
  exchange : String
  quantity : Int
  entryPrice : α
  entryDate : Date
  -- prices at which the position is closed; zero is off
  stopLoss : α
  takeProfit : α
  entryCommission : α

-- A position that has been closed. The profit is net of both commissions.
structure ClosedTrade (α : Type) where
  code : String
  exchange : String
  quantity : Int
  entryPrice : α
  exitPrice : α
  entryDate : Date
  exitDate : Date
  pnl : α

structure EquityPoint (α : Type) where
  date : Date
  equity : α

namespace Position

variable {α : Type}

def isLong (p : Position α) : Bool := 0 < p.quantity

def isShort (p : Position α) : Bool := p.quantity < 0

variable [Amount α]

-- The shares without their sign, as an amount.
def size (p : Position α) : Except Fault α :=
  ofInt (p.quantity.natAbs : Int)

def marketValue (p : Position α) (price : α) : Except Fault α := do
  return (← ofInt p.quantity) * price

def unrealizedPnl (p : Position α) (price : α) : Except Fault α := do
  return (← ofInt p.quantity) * (price - p.entryPrice)

-- What a position adds to the equity: the money put into it, adjusted by the price move.
def worth (p : Position α) (price : α) : Except Fault α := do
  return (← p.size) * p.entryPrice + (← p.unrealizedPnl price)

-- A long is stopped at or below its price, a short at or above.
def stops (p : Position α) (price : α) : Bool :=
  if p.stopLoss ≤ 0 then false
  else if p.isLong then price ≤ p.stopLoss
  else p.stopLoss ≤ price

def takes (p : Position α) (price : α) : Bool :=
  if p.takeProfit ≤ 0 then false
  else if p.isLong then p.takeProfit ≤ price
  else price ≤ p.takeProfit

end Position

namespace ClosedTrade

variable {α : Type}

def isLong (t : ClosedTrade α) : Bool := 0 < t.quantity

def holdingDays (t : ClosedTrade α) : Int := t.entryDate.daysUntil t.exitDate

end ClosedTrade

end BarReplay
