import BarReplay.Json.Basic
import BarReplay.Market.BarFile
import BarReplay.Text.Case

namespace BarReplay.Yahoo

open Text

-- What is wrong with a request for bars, or with a value in a chart.
inductive Flaw where
  | emptyTicker
  | unknownInterval (given : String)
  | unreadableDate (given : String)
  | dateOrder (start last : Date)
  | notInteger (given : String)
  | notNumber (given : String)
  -- what is not a number has no whole part, and is no time
  | undefinedOffset
  | undefinedTime
  | yearRange (year : Int)
  deriving DecidableEq

-- The intervals between bars that can be asked for.
def intervals : List String := ["1d", "1mo", "1wk", "3mo", "5d"]

def Flaw.message : Flaw → String
  | emptyTicker => "Ticker must not be empty."
  | unknownInterval given =>
    "Invalid interval '" ++ given ++ "'. Must be one of: [" ++
      ", ".intercalate (intervals.map quoted) ++ "]"
  | unreadableDate given => Calendar.unreadable given
  | dateOrder start last =>
    "Start date (" ++ start.iso ++ ") must be before end date (" ++ last.iso ++ ")."
  | notInteger given => "invalid literal for int() with base 10: " ++ quoted given
  | notNumber given => BarReplay.notNumber given
  | undefinedOffset => Fault.undefinedWhole.message
  | undefinedTime => "Invalid value NaN (not a number)"
  | yearRange year => "year " ++ Decimal.textInt year ++ " is out of range"

-- What ends a request without a word for whoever made it.
inductive Breakdown where
  -- there is no connection
  | connection (reason : String)
  -- a member is wanted of what has none
  | noMembers
  -- an element is wanted of what has none, or a number of what is none
  | wrongKind
  -- an element of an object is wanted by its place
  | noElement
  | overflow
  -- a time that the clock of the machine does not reach
  | outsideClock
  -- nothing can be read from an answer, for a reason that is not to be reckoned with
  | reader (reason : String)
  deriving DecidableEq

def Breakdown.message : Breakdown → String
  | connection reason => reason
  | noMembers => "a chart lacks an object"
  | wrongKind => "a chart holds a value of the wrong kind"
  | noElement => "a chart holds an object in the place of a list"
  | overflow => Fault.overflow.message
  | outsideClock => "a chart holds a time out of range"
  | reader reason => reason

-- Why there are no bars of a chart.
inductive Error where
  | flaw (flaw : Flaw)
  | source (error : SourceError)
  | breakdown (cause : Breakdown)
  deriving DecidableEq

-- Exchanges with the endings that their codes have as tickers.
abbrev Suffixes := List (String × String)

def suffixes : Suffixes :=
  [("ASX", ".AX"), ("US", ""), ("NYSE", ""), ("NASDAQ", ""), ("LSE", ".L"), ("TSX", ".TO")]

-- A text without white space around it, in capitals.
def tidy (s : String) : String :=
  upper (strip s)

def ticker (table : Suffixes) (code exchange : String) : Except SourceError String :=
  match table.lookup (tidy exchange) with
  | some ending => .ok (tidy code ++ ending)
  | none => .error (.unreadable ("unsupported exchange for Yahoo: " ++ exchange))

-- Parameters of a request, by name.
abbrev Parameters := List (String × Json)

-- Where charts come from: the chart of a ticker.
abbrev Charts (m : Type → Type) := String → Parameters → ExceptT Error m Json

end BarReplay.Yahoo
