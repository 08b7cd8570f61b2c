import BarReplay.Yahoo.Client
import BarReplay.Yahoo.Response

namespace BarReplay.Yahoo

variable {m : Type → Type} [Monad m]

-- The bars of a ticker between two days.
def fetchDays (charts : Charts m) (ticker interval code exchange : String) (start last : Date) :
    ExceptT Error m (List (Bar Float)) := do
  if last < start then throw (.flaw (.dateOrder start last))
  let w : Wanted := ⟨if code.isEmpty then ticker else code, exchange, start, last⟩
  match last.next? with
  | none => throw (.breakdown .overflow)
  | some behind =>
    let data ← charts ticker
      [("period1", .int start.epochSeconds), ("period2", .int behind.epochSeconds),
        ("interval", .text interval), ("includePrePost", .text "false"), ("events", .text "")]
    ExceptT.mk (pure (Response.bars w data))

-- A ticker and an interval that can be asked for.
def checked (ticker interval : String) : Except Flaw String :=
  let ticker := tidy ticker
  if ticker.isEmpty then .error .emptyTicker
  else if intervals.contains interval then .ok ticker
  else .error (.unknownInterval interval)

def day (text : String) : Except Flaw Date :=
  match Calendar.parseDate? Calendar.chartFormats text with
  | some d => .ok d
  | none => .error (.unreadableDate text)

-- The bars of a ticker between two days that are given as text.
def fetch (charts : Charts m) (ticker interval code exchange start last : String) :
    ExceptT Error m (List (Bar Float)) := do
  let request : Except Flaw (String × Date × Date) := do
    return (← checked ticker interval, ← day start, ← day last)
  match request with
  | .error f => throw (.flaw f)
  | .ok (ticker, start, last) => fetchDays charts ticker interval code exchange start last

-- Charts as a source of daily bars. What is wrong with a request or with a value makes the
-- source unreadable.
def source (table : Suffixes) (charts : Charts m) : BarSource Float (ExceptT Breakdown m) :=
  fun code exchange start last => do
    match ticker table code exchange with
    | .error e => return .error e
    | .ok name =>
      let fetched : ExceptT Error m (List (Bar Float)) := do
        match checked name "1d" with
        | .error f => throw (.flaw f)
        | .ok name => fetchDays charts name "1d" code exchange start last
      match ← ExceptT.lift fetched.run with
      | .ok bars => return .ok bars
      | .error (.flaw f) => return .error (.unreadable f.message)
      | .error (.source e) => return .error e
      | .error (.breakdown cause) => throw cause

-- Charts do not say what instruments there are.
def symbols (_exchange : String) : Except SourceError (List String) :=
  .error (.unreadable "Yahoo Finance does not support listing symbols")

end BarReplay.Yahoo
