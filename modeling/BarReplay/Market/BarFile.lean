import BarReplay.Calendar.Pattern
import BarReplay.Csv
import BarReplay.Decimal.Reading
import BarReplay.Market.Basic
import BarReplay.Text.Utf8

namespace BarReplay

open Text

-- What is said of a text that is no number.
def notNumber (s : String) : String :=
  "could not convert string to float: " ++ quoted s

namespace BarFile

-- Why a row is no bar.
inductive RowError where
  | missingColumn (name : String)
  -- the row ends before the field
  | missingDate
  | missingNumber
  | unreadableDate (text : String)
  | unreadableNumber (text : String)
  deriving DecidableEq

def RowError.message : RowError → String
  | missingColumn name => quoted name
  | missingDate => "'NoneType' object has no attribute 'strip'"
  | missingNumber => "float() argument must be a string or a real number, not 'NoneType'"
  | unreadableDate text => Calendar.unreadable (strip text)
  | unreadableNumber text => notNumber text

-- Why a file cannot be read as bars. Rows count from two, as the header is the first.
inductive Error where
  | row (number : Nat) (error : RowError)
  | encoding (error : Utf8.Error)
  | longField
  deriving DecidableEq

def Error.message : Error → String
  | row number e => "Error on row " ++ Decimal.text number ++ ": " ++ e.message
  | encoding e => e.message
  | longField => "field larger than field limit (" ++ Decimal.text Csv.fieldLimit ++ ")"

end BarFile

namespace Csv.Record

open BarFile

def column (r : Record) (name : String) : Except RowError (Option String) :=
  match r.field? name with
  | some field => .ok field
  | none => .error (.missingColumn name)

def date (r : Record) (name : String) : Except RowError Date := do
  match ← r.column name with
  | none => .error .missingDate
  | some text =>
    match Calendar.parseDate? Calendar.barFormats text with
    | some d => .ok d
    | none => .error (.unreadableDate text)

def readNumber (text : String) : Except RowError Float :=
  match Decimal.readFloat? text with
  | some x => .ok x
  | none => .error (.unreadableNumber text)

def number (r : Record) (name : String) : Except RowError Float := do
  match ← r.column name with
  | none => .error .missingNumber
  | some text => readNumber text

-- A number that may be left out, or left blank, for a zero.
def numberOrZero (r : Record) (name : String) : Except RowError Float :=
  match r.field? name with
  | some (some text) => if text.isEmpty then .ok 0 else readNumber text
  | _ => .ok 0

def bar (r : Record) : Except RowError (Bar Float) := do
  return {
    date := ← r.date "date"
    opening := ← r.number "open"
    high := ← r.number "high"
    low := ← r.number "low"
    close := ← r.number "close"
    volume := ← r.numberOrZero "volume" }

end Csv.Record

namespace BarFile

def barsOf (number : Nat) : List Csv.Record → Except Error (List (Bar Float))
  | [] => .ok []
  | r :: rest => do
    let b ← r.bar.mapError (.row number)
    return b :: (← barsOf (number + 1) rest)

-- The part of a text that consists of whole lines, as long as it is not known what comes next:
-- a carriage return at the end may be half of a line end.
def wholeLines (text : List Char) : List Char :=
  let isLineEnd (c : Char) : Bool := c = '\n' || c = '\r'
  let last := match text.reverse with
    | '\r' :: rest => rest
    | rest => rest
  (last.dropWhile (!isLineEnd ·)).reverse

-- The bars of a file, by date. The file is read and its rows are taken up line by line, and
-- the first thing that is wrong ends it.
def read (bytes : List UInt8) : Except Error (List (Bar Float)) := do
  let decoded := Utf8.decodeStream bytes
  let reading := Csv.read (if decoded.flaw.isNone then decoded.text else wholeLines decoded.text)
  let rows := match reading.ending, decoded.flaw with
    | .insideRow row, none => reading.rows ++ [row]
    | _, _ => reading.rows
  let bars ← barsOf 2 (Csv.records rows)
  match reading.ending, decoded.flaw with
  | .longField, _ => .error .longField
  | _, some e => .error (.encoding e)
  | _, none => return sortBars bars

end BarFile

end BarReplay
