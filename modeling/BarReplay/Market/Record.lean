import BarReplay.Json.Basic
import BarReplay.Market.BarFile

namespace BarReplay

-- A bar with the instrument that its record names, whatever that is.
structure NamedBar where
  code : Json
  exchange : Json
  bar : Bar Float

namespace BarRecord

-- Why a record is no bar.
inductive Error where
  | missingKey (name : String)
  -- a date that is not a text
  | notText
  | unreadableDate (text : String)
  -- a number that is neither a number nor a text
  | notNumber
  | unreadableNumber (text : String)
  | arithmetic (fault : Fault)

def Error.message : Error → String
  | missingKey name => Text.quoted name
  | notText => "a date has to be a text"
  | unreadableDate text => Calendar.unreadable (Text.strip text)
  | notNumber => "a number or a text is wanted"
  | unreadableNumber text => BarReplay.notNumber text
  | arithmetic f => f.message

abbrev Members := List (String × Json)

def member (r : Members) (name : String) : Except Error Json :=
  match r.lookup name with
  | some value => .ok value
  | none => .error (.missingKey name)

def toDate : Json → Except Error Date
  | .text s =>
    match Calendar.parseDate? Calendar.barFormats s with
    | some d => .ok d
    | none => .error (.unreadableDate s)
  | _ => .error .notText

-- Numbers stand for themselves, texts for what they denote, and truth is one.
def toNumber : Json → Except Error Float
  | .int n => (Double.ofInt n).mapError .arithmetic
  | .real x => .ok x
  | .bool b => .ok (if b then 1 else 0)
  | .text s =>
    match Decimal.readFloat? s with
    | some x => .ok x
    | none => .error (.unreadableNumber s)
  | _ => .error .notNumber

-- The bar of a record. Code and exchange have defaults, and the volume is zero unless it is said.
def toBar (code exchange : String) (r : Members) : Except Error NamedBar := do
  return {
    code := (r.lookup "code").getD (.text code)
    exchange := (r.lookup "exchange").getD (.text exchange)
    bar := {
      date := ← toDate (← member r "date")
      opening := ← toNumber (← member r "open")
      high := ← toNumber (← member r "high")
      low := ← toNumber (← member r "low")
      close := ← toNumber (← member r "close")
      volume := ← toNumber ((r.lookup "volume").getD (.int 0)) } }

-- The bars of records, by date.
def toBars (code exchange : String) (records : List Members) : Except Error (List NamedBar) := do
  return (← records.mapM (toBar code exchange)).mergeSort fun a b => decide (a.bar.date ≤ b.bar.date)

end BarRecord

end BarReplay
