import BarReplay.Amount
import BarReplay.Calendar.Date

namespace BarReplay

-- One trading day of one instrument.
structure Bar (α : Type) where
  date : Date
  opening : α
  high : α
  low : α
  close : α
  volume : α

namespace Bar

variable {α : Type} [Amount α]

open Amount

def typicalPrice (b : Bar α) : α :=
  (b.high + b.low + b.close) / whole 3

-- How far the price went in a day, the step from the previous close included.
def trueRange (b : Bar α) (previousClose : Option α) : α :=
  let range := b.high - b.low
  match previousClose with
  | none => range
  | some p => maximum range [abs (b.high - p), abs (b.low - p)]

end Bar

-- Bars by date, those of one date in the order given.
def sortBars {α : Type} (bars : List (Bar α)) : List (Bar α) :=
  bars.mergeSort fun a b => decide (a.date ≤ b.date)

-- Why a source has no bars for an instrument.
inductive SourceError where
  -- nothing is known of the instrument
  | noData (code exchange : String)
  -- the source cannot be read
  | unreadable (reason : String)
  -- a chart cannot be fetched
  | noChart (reason : String)
  deriving DecidableEq

namespace SourceError

def message : SourceError → String
  | noData code exchange => "no data for " ++ code ++ "." ++ exchange
  | unreadable reason => reason
  | noChart reason => reason

def exitCode : SourceError → Nat
  | noData .. => 5
  | unreadable _ | noChart _ => 3

end SourceError

-- Where daily bars come from: the bars of an instrument between two dates, both included.
-- Fetching may have effects in `m`. What a source cannot answer for is not a `SourceError` and
-- ends whatever asked for the bars.
def BarSource (α : Type) (m : Type → Type) : Type :=
  String → String → Date → Date → m (Except SourceError (List (Bar α)))

end BarReplay
