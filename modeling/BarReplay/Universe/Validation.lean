import BarReplay.Market.Basic
import BarReplay.Universe.Basic

namespace BarReplay.Universe

-- The instruments that a run goes over and those that it leaves out, both in the order of the
-- request.
structure Validation (α : Type) where
  exchange : String
  admitted : List (String × List (Bar α))
  skipped : List Skip

def Validation.codes {α : Type} (v : Validation α) : List String :=
  v.admitted.map Prod.fst

-- Why a request leaves nothing to run.
inductive Error where
  | noCodes
  | noDates
  -- every instrument failed at the source
  | allFailed (count : Nat) (exchange : String) (skipped : List Skip)
  -- some instrument only had too little
  | allInsufficient (exchange : String) (minimum : Int) (skipped : List Skip)

namespace Error

def message : Error → String
  | noCodes => "no instrument codes given"
  | noDates => "start and end dates are required"
  | allFailed count exchange _ =>
    "all " ++ Decimal.text count ++ " instrument(s) on " ++ exchange ++ " failed to fetch"
  | allInsufficient exchange minimum _ =>
    "insufficient data: no instrument on " ++ exchange ++ " has " ++ Decimal.textInt minimum ++
      " or more bars"

def exitCode : Error → Nat
  | noCodes | noDates => 2
  | allFailed .. => 3
  | allInsufficient .. => 5

end Error

-- Fewer bars than a run needs.
structure TooFewBars where
  code : String
  bars : Nat
  minimum : Int
  deriving DecidableEq

def TooFewBars.message (e : TooFewBars) : String :=
  "insufficient data for " ++ e.code ++ ": " ++ Decimal.text e.bars ++ " bars (minimum " ++
    Decimal.textInt e.minimum ++ ")"

def requireHistory (code : String) (bars : Nat) (minimum : Int) : Except TooFewBars Unit :=
  if (bars : Int) < minimum then .error ⟨code, bars, minimum⟩ else .ok ()

variable {α : Type}

-- What becomes of one instrument: its bars, or the reason for which it is left out.
def judge (minimum : Int) (code : String) (fetched : Except SourceError (List (Bar α))) :
    Except Skip (List (Bar α)) :=
  match fetched with
  | .error (.noData ..) | .ok [] => .error ⟨code, .noData, 0, "", minimumBars⟩
  | .error e => .error ⟨code, .fetchError, 0, e.message, minimumBars⟩
  | .ok bars =>
    match requireHistory code bars.length minimum with
    | .ok () => .ok bars
    | .error e => .error ⟨code, .insufficientBars, e.bars, "", e.minimum⟩

-- Puts the bars of an instrument, in the place of earlier ones.
def keepBars (code : String) (bars : List (Bar α)) (admitted : List (String × List (Bar α))) :
    List (String × List (Bar α)) :=
  if admitted.any (·.1 == code) then
    admitted.map fun entry => if entry.1 == code then (code, bars) else entry
  else
    admitted ++ [(code, bars)]

def Validation.note (v : Validation α) (minimum : Int) (code : String)
    (fetched : Except SourceError (List (Bar α))) : Validation α :=
  match judge minimum code fetched with
  | .ok bars => { v with admitted := keepBars code bars v.admitted }
  | .error skip => { v with skipped := v.skipped ++ [skip] }

-- Whether anything is left to run.
def Validation.settle (v : Validation α) (count : Nat) (minimum : Int) :
    Except Error (Validation α) :=
  if !v.admitted.isEmpty then .ok v
  else if v.skipped.all fun s => s.reason = .fetchError then
    .error (.allFailed count v.exchange v.skipped)
  else
    .error (.allInsufficient v.exchange minimum v.skipped)

-- Asks the source for every code in turn and keeps the instruments with enough bars.
def validate {m : Type → Type} [Monad m] (source : BarSource α m) (codes : List String)
    (exchange : String) (start last : Option Date) (minimum : Int) :
    m (Except Error (Validation α)) := do
  if codes.isEmpty then return .error .noCodes
  else
    match start, last with
    | some first, some last =>
      let mut v : Validation α := ⟨exchange, [], []⟩
      for code in codes do
        v := v.note minimum code (← source code exchange first last)
      return v.settle codes.length minimum
    | _, _ => return .error .noDates

end BarReplay.Universe
