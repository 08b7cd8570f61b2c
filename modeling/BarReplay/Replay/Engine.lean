import BarReplay.Portfolio.Fill
import BarReplay.Replay.Instrument
import BarReplay.Universe.Validation

namespace BarReplay

-- A finished run.
structure Result (α : Type) where
  strategy : Strategy α
  settings : Settings α
  portfolio : Portfolio α
  codes : List String
  exchange : String
  skipped : List Skip

namespace Result

variable {α : Type}

def severalInstruments (r : Result α) : Bool := 1 < r.codes.length

def startDate? (r : Result α) : Option Date := r.portfolio.curve.head?.map (·.date)

def endDate? (r : Result α) : Option Date := r.portfolio.curve.getLast?.map (·.date)

end Result

namespace Engine

variable {α : Type} [Amount α]

open Portfolio

-- The instruments with a bar on a day, with the index of that bar and its close.
def today (instruments : List (Instrument α)) (day : Date) : List (Instrument α × Nat × α) :=
  instruments.filterMap fun i => do
    let index ← i.indexOf? day
    let bar ← i.bars[index]?
    return (i, index, bar.close)

def prices (trading : List (Instrument α × Nat × α)) : PriceMap α :=
  trading.map fun (i, _, close) => (i.code, close)

-- Whether the rule that closes a position holds; without a rule it does not.
def wantsExit (s : Strategy α) (pos : Position α) (chart : Chart α) (index : Nat) : Bool :=
  if pos.isLong then s.exitLong.holds chart index
  else
    match s.exitShort with
    | some r => r.holds chart index
    | none => false

-- The side on which an instrument is entered, a long before a short.
def entrySide? (s : Strategy α) (allowShorting : Bool) (chart : Chart α) (index : Nat) :
    Option Side :=
  if s.entryLong.holds chart index then some .long
  else
    match s.entryShort with
    | some r => if allowShorting && r.holds chart index then some .short else none
    | none => none

-- One instrument on one day: a position is closed if its exit rule holds, and while there is
-- room an instrument without a position is entered if an entry rule holds.
def visit (settings : Settings α) (s : Strategy α) (day : Date) (i : Instrument α) (index : Nat)
    (close : α) : Action α Unit := do
  match (← get).position? i.code with
  | some pos =>
    if wantsExit s pos i.chart index then
      let _ ← exit i.code close day settings.execution
  | none => pure ()
  let p ← get
  if !p.holds i.code && decide ((p.positions.length : Int) < s.maxPositions) then
    match entrySide? s settings.allowShorting i.chart index with
    | some side =>
      let _ ← enter side i.code i.exchange close day s settings.execution
    | none => pure ()

-- One day: stops and targets first, then each instrument in order, then the equity at the
-- close.
def replayDay (settings : Settings α) (s : Strategy α) (instruments : List (Instrument α))
    (day : Date) : Action α Unit := do
  let trading := today instruments day
  let _ ← sweep (prices trading) day settings.execution
  for (i, index, close) in trading do
    visit settings s day i index close
  let p ← get
  record day (← calculated (p.equity (prices trading)))

def replay (settings : Settings α) (s : Strategy α) (instruments : List (Instrument α))
    (days : List Date) : Action α Unit := do
  for day in days do
    replayDay settings s instruments day

inductive Error where
  | duplicateCodes (codes : List String)
  | step (failure : Failure)

-- Runs a strategy over the days of a calendar, by default every day with a bar.
def run (settings : Settings α) (s : Strategy α) (instruments : List (Instrument α))
    (days : Option (List Date)) : Except Error (Result α) :=
  let codes := instruments.map (·.code)
  if ¬ codes.Nodup then .error (.duplicateCodes codes)
  else
    let days := days.getD (calendar instruments)
    match (replay settings s instruments days).run (Portfolio.new settings.initialCapital) with
    | (.error f, _) => .error (.step f)
    | (.ok (), p) =>
      let exchange := (instruments.head?.map (·.exchange)).getD ""
      .ok ⟨s, settings, p, codes, exchange, []⟩

-- Runs a strategy over the bars of one instrument, each given with its code and exchange.
-- A code or an exchange that is empty is taken from the first bar.
def runListed (settings : Settings α) (s : Strategy α) (code exchange : String)
    (listed : List (String × String × Bar α)) : Except Error (Result α) :=
  let code := if code.isEmpty then (listed.head?.map (·.1)).getD code else code
  let exchange := if exchange.isEmpty then (listed.head?.map (·.2.1)).getD exchange else exchange
  match Instrument.ofBars code exchange (listed.map (·.2.2)) (some s) [] with
  | .error f => .error (.step (.arithmetic f))
  | .ok i => run settings s [i] none

end Engine

inductive UniverseRunError where
  | universe (error : Universe.Error)
  | engine (error : Engine.Error)

variable {α : Type} [Amount α]

-- Runs a strategy over the instruments that a validation admits.
def Universe.Validation.run (v : Validation α) (settings : Settings α) (s : Strategy α) :
    Except UniverseRunError (Result α) := do
  let instruments ← (v.admitted.mapM fun (code, bars) =>
    Instrument.ofBars code v.exchange bars (some s) []).mapError
      fun f => .engine (.step (.arithmetic f))
  let result ← (Engine.run settings s instruments none).mapError .engine
  return { result with skipped := v.skipped }

-- Validates a universe and runs a strategy over what is left of it.
def runUniverse {m : Type → Type} [Monad m] (source : BarSource α m) (settings : Settings α)
    (s : Strategy α) (codes : List String) (exchange : String) :
    m (Except UniverseRunError (Result α)) := do
  match ← Universe.validate source codes exchange settings.startDate settings.endDate
    minimumBars with
  | .error e => return .error (.universe e)
  | .ok v => return v.run settings s

end BarReplay
