import BarReplay.Calendar.Date
import BarReplay.Text.Classes

namespace BarReplay.Calendar

open Text

-- A piece of a date format.
inductive Item where
  | year | month | day | hour | minute | second
  -- a character; letters match in either case
  | char (c : Char)
  -- at least one character of white space
  | blank
  deriving DecidableEq

-- What the pieces of a format have matched.
structure Parts where
  year : Nat := 1900
  month : Nat := 1
  day : Nat := 1
  hour : Nat := 0
  minute : Nat := 0
  second : Nat := 0
  deriving DecidableEq

-- The value of an ASCII digit between two others.
def figure (low high : Char) (c : Char) : Option Nat :=
  if low ≤ c ∧ c ≤ high then some (c.toNat - '0'.toNat) else none

-- One way to match a number: a digit, or two.
def one (p : Char → Option Nat) : List Char → List (Nat × List Char)
  | c :: r =>
    match p c with
    | some n => [(n, r)]
    | none => []
  | [] => []

def two (p q : Char → Option Nat) : List Char → List (Nat × List Char)
  | c :: d :: r =>
    match p c, q d with
    | some m, some n => [(10 * m + n, r)]
    | _, _ => []
  | _ => []

def four : List Char → List (Nat × List Char)
  | a :: b :: c :: d :: r =>
    match decimalDigit? a, decimalDigit? b, decimalDigit? c, decimalDigit? d with
    | some a, some b, some c, some d => [(((a * 10 + b) * 10 + c) * 10 + d, r)]
    | _, _, _, _ => []
  | _ => []

-- The ways to match a number, the preferred one first. A second digit may be of any script
-- where it is free. A day may have a space in place of its first digit.
def dayWays (s : List Char) : List (Nat × List Char) :=
  two (figure '3' '3') (figure '0' '1') s ++ two (figure '1' '2') decimalDigit? s ++
    two (figure '0' '0') (figure '1' '9') s ++ one (figure '1' '9') s ++
    (match s with
      | ' ' :: r => one (figure '1' '9') r
      | _ => [])

def monthWays (s : List Char) : List (Nat × List Char) :=
  two (figure '1' '1') (figure '0' '2') s ++ two (figure '0' '0') (figure '1' '9') s ++
    one (figure '1' '9') s

def hourWays (s : List Char) : List (Nat × List Char) :=
  two (figure '2' '2') (figure '0' '3') s ++ two (figure '0' '1') decimalDigit? s ++
    one decimalDigit? s

def minuteWays (s : List Char) : List (Nat × List Char) :=
  two (figure '0' '5') decimalDigit? s ++ one decimalDigit? s

-- Leap seconds can be written, although no time has them.
def secondWays (s : List Char) : List (Nat × List Char) :=
  two (figure '6' '6') (figure '0' '1') s ++ minuteWays s

-- What can be left after white space, the shortest first.
def blankWays (s : List Char) : List (List Char) :=
  let n := (s.takeWhile isBlank).length
  (List.range n).map fun k => s.drop (n - k)

-- The ways to match a piece of a format at the front of a text.
def Item.ways (i : Item) (p : Parts) (s : List Char) : List (Parts × List Char) :=
  match i with
  | year => (four s).map fun (n, r) => ({ p with year := n }, r)
  | month => (monthWays s).map fun (n, r) => ({ p with month := n }, r)
  | day => (dayWays s).map fun (n, r) => ({ p with day := n }, r)
  | hour => (hourWays s).map fun (n, r) => ({ p with hour := n }, r)
  | minute => (minuteWays s).map fun (n, r) => ({ p with minute := n }, r)
  | second => (secondWays s).map fun (n, r) => ({ p with second := n }, r)
  | char c =>
    match s with
    | d :: r => if c.toLower = d.toLower then [(p, r)] else []
    | [] => []
  | blank => (blankWays s).map fun r => (p, r)

-- The first way to match a whole format, and what is left then.
def firstMatch (p : Parts) (s : List Char) : List Item → Option (Parts × List Char)
  | [] => some (p, s)
  | i :: is => (i.ways p s).findSome? fun (q, r) => firstMatch q r is

-- The date that a text gives in a format. Nothing may be left over, and date and time of day
-- have to exist.
def Item.parse? (format : List Item) (s : String) : Option Date := do
  let (p, rest) ← firstMatch {} s.toList format
  if rest.isEmpty && decide (p.second ≤ 59) then Date.ofParts? p.year p.month p.day else none

-- Year, month and day with hyphens.
def isoDate : List Item := [.year, .char '-', .month, .char '-', .day]

def clock : List Item := [.hour, .char ':', .minute, .char ':', .second]

-- Month, day and year with slashes.
def slashDate : List Item := [.month, .char '/', .day, .char '/', .year]

-- The formats of dates in files of bars.
def barFormats : List (List Item) :=
  [isoDate, isoDate ++ [.blank] ++ clock, isoDate ++ [.char 'T'] ++ clock,
    isoDate ++ [.char 'T'] ++ clock ++ [.char 'Z'], slashDate]

-- The formats of dates in requests for charts.
def chartFormats : List (List Item) :=
  [isoDate, slashDate, isoDate ++ [.char 'T'] ++ clock]

-- The date of a text in the first of several formats that it has.
def parseDate? (formats : List (List Item)) (s : String) : Option Date :=
  formats.findSome? fun f => Item.parse? f (strip s)

-- What is said of a text that has none of the formats.
def unreadable (s : String) : String :=
  "Cannot parse date: '" ++ s ++ "'"

end BarReplay.Calendar
