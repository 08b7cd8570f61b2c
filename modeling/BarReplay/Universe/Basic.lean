import BarReplay.Decimal.Digits
import BarReplay.Text.Case
import BarReplay.Text.Classes

namespace BarReplay

-- Why an instrument was left out of a run.
inductive SkipReason where
  | noData
  | insufficientBars
  | fetchError
  deriving DecidableEq

def SkipReason.name : SkipReason → String
  | noData => "no_data"
  | insufficientBars => "insufficient_bars"
  | fetchError => "fetch_error"

-- An instrument that was left out: how many bars it has, and how many it should have.
structure Skip where
  code : String
  reason : SkipReason
  bars : Nat
  detail : String
  minimum : Int

-- An instrument needs so many bars to be run.
def minimumBars : Int := 30

def Skip.describe (s : Skip) : String :=
  match s.reason with
  | .insufficientBars =>
    s.code ++ ": only " ++ Decimal.text s.bars ++ " bars (minimum " ++
      Decimal.textInt s.minimum ++ ")"
  | .noData => s.code ++ ": no data"
  | .fetchError => s.code ++ ": fetch error (" ++ s.detail ++ ")"

namespace Universe

-- Why a text is not a list of instrument codes.
inductive CodesError where
  | emptyToken
  | duplicate (code : String)
  deriving DecidableEq

def CodesError.message : CodesError → String
  | emptyToken => "empty token in code list"
  | duplicate code => "duplicate code: " ++ code

def collectCodes (seen : List String) : List String → Except CodesError (List String)
  | [] => .ok seen
  | token :: tokens =>
    let code := Text.upper (Text.strip token)
    if code.isEmpty then .error .emptyToken
    else if seen.contains code then .error (.duplicate code)
    else collectCodes (seen ++ [code]) tokens

-- Codes in capitals, with commas between them.
def parseCodes (text : String) : Except CodesError (List String) :=
  collectCodes [] (Text.split ',' text)

end Universe

end BarReplay
