import BarReplay.Decimal.Reading
import BarReplay.Rule.Error
import BarReplay.Universe.Basic

namespace BarReplay.Config

open Text

-- Where settings come from: the text under a section and a key, if there is one.
abbrev Source := String → String → Option String

-- Settings from variables: section and key with an underscore between them, in capitals.
-- The environment comes before a file.
def Source.ofVariables (environment file : List (String × String)) : Source := fun sect key =>
  let name := upper (sect ++ "_" ++ key)
  (environment.lookup name).orElse fun _ => file.lookup name

-- What is wrong with a value that is there.
inductive Reason where
  | expectedInteger (raw : String)
  | expectedNumber (raw : String)
  | expectedBoolean (raw : String)
  | dateFormat (key : String)
  | dateOrder
  | notPositive (key : String)
  | negative (key : String)
  | rateRange
  | sizeRange
  | fewPositions
  deriving DecidableEq

def Reason.message : Reason → String
  | expectedInteger raw => "expected an integer, got '" ++ raw ++ "'"
  | expectedNumber raw => "expected a number, got '" ++ raw ++ "'"
  | expectedBoolean raw => "expected a boolean, got '" ++ raw ++ "'"
  | dateFormat key => "invalid " ++ key ++ " format, expected YYYY-MM-DD"
  | dateOrder => "start_date must be before end_date"
  | notPositive key => key ++ " must be positive"
  | negative key => key ++ " must be non-negative"
  | rateRange => "risk_free_rate must be between 0 and 1"
  | sizeRange => "position_size must be in (0, 1]"
  | fewPositions => "max_positions must be at least 1"

-- Why settings cannot be used.
inductive Error where
  | missing (sect key : String)
  | invalid (sect key : String) (reason : Reason)
  | rule (error : Rule.ParseError)
  | codes (error : Universe.CodesError)
  -- the source as a whole cannot be used
  | unusable (reason : String)

namespace Error

def message : Error → String
  | missing sect key => "missing required config key [" ++ sect ++ "] " ++ key
  | invalid sect key reason =>
    "invalid config value [" ++ sect ++ "] " ++ key ++ ": " ++ reason.message
  | rule e => e.message
  | codes e => e.message
  | unusable reason => reason

def exitCode : Error → Nat
  | rule _ => 4
  | missing .. | invalid .. | codes _ | unusable _ => 2

end Error

-- The text under a key, unless it is missing or blank.
def Source.filled? (s : Source) (sect key : String) : Option String :=
  match s sect key with
  | some raw => if (strip raw).isEmpty then none else some raw
  | none => none

-- A value that is missing or blank has a default; one that is there has to be of its kind.
def Source.lookup {β : Type} (s : Source) (read : String → Option β) (reason : String → Reason)
    (sect key : String) (default : β) : Except Error β :=
  match s.filled? sect key with
  | none => .ok default
  | some raw =>
    match read (strip raw) with
    | some x => .ok x
    | none => .error (.invalid sect key (reason raw))

def Source.int (s : Source) : String → String → Int → Except Error Int :=
  s.lookup Decimal.readInt? .expectedInteger

def Source.float (s : Source) : String → String → Float → Except Error Float :=
  s.lookup Decimal.readFloat? .expectedNumber

def readBool? (raw : String) : Option Bool :=
  let word := lower raw
  if ["true", "yes", "1", "on"].contains word then some true
  else if ["false", "no", "0", "off"].contains word then some false
  else none

def Source.bool (s : Source) : String → String → Bool → Except Error Bool :=
  s.lookup readBool? .expectedBoolean

-- A text that has to be there, without white space around it.
def Source.require (s : Source) (sect key : String) : Except Error String :=
  match s.filled? sect key with
  | some raw => .ok (strip raw)
  | none => .error (.missing sect key)

end BarReplay.Config
