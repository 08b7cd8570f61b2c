import BarReplay.Json.Text
import BarReplay.Yahoo.Basic

namespace BarReplay.Yahoo

-- What bars are wanted: days between two dates, both included, and what to call the
-- instrument they belong to.
structure Wanted where
  code : String
  exchange : String
  start : Date
  last : Date

namespace Response

-- Nothing, zero, and what is empty do not count as given.
def isGiven : Json → Bool
  | .null => false
  | .bool b => b
  | .int n => n != 0
  | .real x => !(x == 0)
  | .text s => !s.isEmpty
  | .list items => !items.isEmpty
  | .object members => !members.isEmpty

-- A value that is given, or else another one.
def orElse (j other : Json) : Json :=
  if isGiven j then j else other

-- The member of an object, or nothing if it lacks the member.
def member (j : Json) (name : String) : Except Error Json :=
  match j with
  | .object members => .ok ((members.lookup name).getD .null)
  | _ => .error (.breakdown .noMembers)

-- The member of an object, which is empty if it is not there at all.
def memberOrEmpty (j : Json) (name : String) : Except Error Json :=
  match j with
  | .object members => .ok ((members.lookup name).getD (.object []))
  | _ => .error (.breakdown .noMembers)

-- What there is to go through in a value: a text holds its characters, an object its names.
def elements : Json → Except Error (List Json)
  | .list items => .ok items
  | .text s => .ok (s.toList.map fun c => .text c.toString)
  | .object members => .ok (members.map fun m => .text m.1)
  | _ => .error (.breakdown .wrongKind)

-- The element at a place, or nothing behind the last one.
def element (j : Json) (place : Nat) : Except Error Json := do
  match (← elements j)[place]?, j with
  | none, _ => .ok .null
  | some _, .object _ => .error (.breakdown .noElement)
  | some x, _ => .ok x

def ofFault {β : Type} (undefined : Flaw) : Except Fault β → Except Error β
  | .ok x => .ok x
  | .error .undefinedWhole => .error (.flaw undefined)
  | .error _ => .error (.breakdown .overflow)

-- A number without its fraction.
def truncate (x : Float) : Except Fault Int := do
  if x < 0 then return -(← Double.floor (-x)) else Double.floor x

-- The whole number that a value stands for.
def toInt : Json → Except Error Int
  | .int n => .ok n
  | .bool b => .ok (if b then 1 else 0)
  | .real x => ofFault .undefinedOffset (truncate x)
  | .text s =>
    match Decimal.readInt? s with
    | some n => .ok n
    | none => .error (.flaw (.notInteger s))
  | _ => .error (.breakdown .wrongKind)

def toNumber : Json → Except Error Float
  | .int n => ofFault .undefinedOffset (Double.ofInt n)
  | .bool b => .ok (if b then 1 else 0)
  | .real x => .ok x
  | .text s =>
    match Decimal.readFloat? s with
    | some x => .ok x
    | none => .error (.flaw (.notNumber s))
  | _ => .error (.breakdown .wrongKind)

-- The nearest whole number, the even one of two.
def roundEven (x : Float) : Except Fault Int := do
  let n ← Double.floor x
  let rest := x - (← Double.ofInt n)
  return if rest < 0.5 ∨ (rest == 0.5 ∧ n % 2 = 0) then n else n + 1

-- The second that a time lies in, with the time taken to the nearest microsecond.
def secondOf (x : Float) : Except Fault Int := do
  let n ← truncate x
  let micros ← roundEven ((x - (← Double.ofInt n)) * 1000000.0)
  return if 1000000 ≤ micros then n + 1 else if micros < 0 then n - 1 else n

-- The second of a time stamp at a place that is some seconds ahead.
def localSecond (offset : Int) : Json → Except Error Int
  | .int n => .ok (n + offset)
  | .bool b => .ok ((if b then 1 else 0) + offset)
  | .real x => ofFault .undefinedTime do secondOf (x + (← Double.ofInt offset))
  | _ => .error (.breakdown .wrongKind)

-- The day of a second. Seconds are counted in 64 bits, and years from 1900 in 32.
def dayOf (second : Int) : Except Error Date :=
  if second < -(Int.pow 2 63) ∨ Int.pow 2 63 ≤ second then .error (.breakdown .overflow)
  else
    let n := Date.ordinalOfSeconds second
    match Date.ofOrdinal? n with
    | some d => .ok d
    | none =>
      let year := (Date.yearOfOrdinal n).1
      if year - 1900 < -(Int.pow 2 31) ∨ Int.pow 2 31 ≤ year - 1900 then .error (.breakdown .outsideClock)
      else .error (.flaw (.yearRange year))

-- The columns of a chart, in the order in which they are read.
structure Columns where
  opening : Json
  high : Json
  low : Json
  close : Json
  volume : Json

-- The bar at a place, unless a price is missing or the day is not wanted.
def bar? (w : Wanted) (offset : Int) (c : Columns) (place : Nat) (stamp : Json) :
    Except Error (Option (Bar Float)) := do
  let opening ← element c.opening place
  let high ← element c.high place
  let low ← element c.low place
  let close ← element c.close place
  let volume ← element c.volume place
  if [opening, high, low, close].any (· matches .null) then return none
  let day ← dayOf (← localSecond offset stamp)
  if day < w.start ∨ w.last < day then return none
  return some {
    date := day
    opening := ← toNumber opening
    high := ← toNumber high
    low := ← toNumber low
    close := ← toNumber close
    volume := ← toNumber (orElse volume (.int 0)) }

def barsFrom (w : Wanted) (offset : Int) (c : Columns) (place : Nat) :
    List Json → Except Error (List (Bar Float))
  | [] => .ok []
  | stamp :: rest => do
    let b ← bar? w offset c place stamp
    return b.toList ++ (← barsFrom w offset c (place + 1) rest)

-- Bars by date, of each day the last one.
def daily (bars : List (Bar Float)) : List (Bar Float) :=
  sortBars (bars.foldr (fun b later => if later.any (·.date == b.date) then later else b :: later) [])

-- The bars in the first result of a chart.
def resultBars (w : Wanted) (result : Json) : Except Error (List (Bar Float)) := do
  let gap := Json.object []
  let gmtOffset ← member (orElse (← member result "meta") gap) "gmtoffset"
  let offset ← toInt (orElse gmtOffset (.int 0))
  let stamps := orElse (← member result "timestamp") (.list [])
  let indicators ← memberOrEmpty result "indicators"
  let quotes ← element (orElse (← member indicators "quote") (.list [gap])) 0
  let column (name : String) : Except Error Json := do
    return orElse (← member quotes name) (.list [])
  let columns : Columns := ⟨← column "open", ← column "high", ← column "low", ← column "close",
    ← column "volume"⟩
  return daily (← barsFrom w offset columns 0 (← elements stamps))

-- The bars of a chart.
def bars (w : Wanted) (data : Json) : Except Error (List (Bar Float)) := do
  let noData : Error := .source (.noData w.code w.exchange)
  let chart ← memberOrEmpty data "chart"
  let error ← member chart "error"
  if isGiven error then
    match error.get? "code" with
    | some (.text "Not Found") => .error noData
    | _ =>
      let shown := match error with
        | .text s => s
        | e => e.display
      .error (.source (.noChart ("Yahoo chart error: " ++ shown)))
  let results ← member chart "result"
  if !isGiven results then .error noData
  match ← resultBars w (← element results 0) with
  | [] => .error noData
  | bars => return bars

end Response

end BarReplay.Yahoo
