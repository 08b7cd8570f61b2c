import BarReplay.Portfolio.Position

namespace BarReplay

-- Cash, open positions in the order in which they were opened, and the history.
structure Portfolio (α : Type) where
  initialCapital : α
  cash : α
  positions : List (Position α)
  trades : List (ClosedTrade α)
  curve : List (EquityPoint α)

-- The prices of a day by instrument code.
abbrev PriceMap (α : Type) := List (String × α)

namespace Portfolio

-- Why a step on a portfolio fails.
inductive Failure where
  | arithmetic (fault : Fault)
  | alreadyOpen (code : String)
  | notOpen (code : String)
  | dateOrder (day last : Date)
  deriving DecidableEq

def Failure.message : Failure → String
  | arithmetic f => f.message
  | alreadyOpen code => "position already open for " ++ code
  | notOpen code => "no open position for " ++ code
  | dateOrder day last => "equity date " ++ day.iso ++ " not after " ++ last.iso

-- A step on a portfolio. What it has done stays done when it fails later on.
abbrev Action (α β : Type) := ExceptT Failure (StateM (Portfolio α)) β

variable {α : Type}

def calculated {β : Type} (r : Except Fault β) : Action α β :=
  match r with
  | .ok x => pure x
  | .error f => throw (.arithmetic f)

def new (initialCapital : α) : Portfolio α :=
  ⟨initialCapital, initialCapital, [], [], []⟩

def position? (p : Portfolio α) (code : String) : Option (Position α) :=
  p.positions.find? (·.code == code)

def holds (p : Portfolio α) (code : String) : Bool :=
  (p.position? code).isSome

def add (pos : Position α) : Action α Unit := do
  let p ← get
  if p.holds pos.code then throw (.alreadyOpen pos.code)
  set { p with positions := p.positions ++ [pos] }

def remove (code : String) : Action α (Position α) := do
  let p ← get
  match p.position? code with
  | none => throw (.notOpen code)
  | some pos =>
    set { p with positions := p.positions.filter (·.code != code) }
    return pos

-- Writes down the equity of a day, which has to follow the last one.
def record (day : Date) (equity : α) : Action α Unit := do
  let p ← get
  match p.curve.getLast? with
  | some last => if day ≤ last.date then throw (.dateOrder day last.date)
  | none => pure ()
  set { p with curve := p.curve ++ [EquityPoint.mk day equity] }

-- Cash and the worth of every position that has a price.
def equity [Amount α] (p : Portfolio α) (prices : PriceMap α) : Except Fault α :=
  p.positions.foldlM (fun total pos =>
    match prices.lookup pos.code with
    | none => .ok total
    | some price => do return total + (← pos.worth price)) p.cash

-- The last equity on record, the initial capital before there is one.
def finalEquity (p : Portfolio α) : α :=
  match p.curve.getLast? with
  | some point => point.equity
  | none => p.initialCapital

end Portfolio

end BarReplay
