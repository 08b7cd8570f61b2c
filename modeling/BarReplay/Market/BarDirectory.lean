import BarReplay.Files.Basic
import BarReplay.Market.BarFile

namespace BarReplay

variable {m : Type → Type} [Monad m]

namespace BarFile

-- Why bars cannot be loaded from a path.
inductive LoadError where
  | absent (path : FilePath)
  -- it cannot be found out whether there is a file
  | unknown (error : FileError)
  | file (error : FileError)
  | content (error : Error)
  deriving DecidableEq

def LoadError.message : LoadError → String
  | absent path => "Bars CSV not found: " ++ path.text
  | unknown e => e.message
  | file e => e.message
  | content e => e.message

def load (files : FileAccess m) (path : FilePath) : m (Except LoadError (List (Bar Float))) := do
  match ← files.has path with
  | .error e => return .error (.unknown e)
  | .ok false => return .error (.absent path)
  | .ok true =>
    match ← files.read path with
    | .ok bytes => return (read bytes).mapError .content
    | .error e => return .error (.file e)

end BarFile

-- A directory with a file of bars for each instrument.
structure BarDirectory where
  base : FilePath

namespace BarDirectory

-- The end of the file names of an exchange.
def ending (exchange : String) : String :=
  "_" ++ exchange ++ ".csv"

def path (d : BarDirectory) (code exchange : String) : FilePath :=
  d.base.append (code ++ ending exchange)

-- The code that a file name begins with, if it is one of the exchange.
def codeOf? (exchange name : String) : Option String :=
  let cs := name.toList
  let es := (ending exchange).toList
  if es.isSuffixOf cs && decide (es.length < cs.length) then
    some (String.ofList (cs.take (cs.length - es.length)))
  else none

-- What ends a request without a word for whoever made it.
inductive Breakdown where
  | file (error : FileError)
  -- a file has a field that is too long
  | longField
  deriving DecidableEq

def Breakdown.message : Breakdown → String
  | file e => e.message
  | longField => BarFile.Error.longField.message

-- All bars of an instrument, if it has a file.
def bars? (d : BarDirectory) (files : FileAccess m) (code exchange : String) :
    ExceptT Breakdown m (Except SourceError (Option (List (Bar Float)))) := do
  let path := d.path code exchange
  match ← ExceptT.lift (BarFile.load files path) with
  | .ok bars => return .ok (some bars)
  | .error (.absent _) => return .ok none
  | .error (.unknown e) => throw (.file e)
  | .error (.content .longField) => throw .longField
  | .error e => return .error (.unreadable ("failed to read " ++ path.text ++ ": " ++ e.message))

def source (d : BarDirectory) (files : FileAccess m) : BarSource Float (ExceptT Breakdown m) :=
  fun code exchange start last => do
    match ← d.bars? files code exchange with
    | .error e => return .error e
    | .ok bars? =>
      match (bars?.getD []).filter fun b => decide (start ≤ b.date) && decide (b.date ≤ last) with
      | [] => return .error (.noData code exchange)
      | bars => return .ok bars

-- The codes that have a file on an exchange, in order.
def symbols (d : BarDirectory) (files : FileAccess m) (exchange : String) :
    ExceptT Breakdown m (Except SourceError (List String)) := do
  match ← ExceptT.lift (files.list d.base) with
  | .error .zeroCharacter => throw (.file .zeroCharacter)
  | .error e =>
    return .error (.unreadable ("failed to read directory " ++ d.base.text ++ ": " ++ e.message))
  | .ok names =>
    return .ok ((names.filterMap (codeOf? exchange)).mergeSort fun a b => decide (a ≤ b))

-- The first and the last day of an instrument's bars, and how many bars there are.
def range (d : BarDirectory) (files : FileAccess m) (code exchange : String) :
    ExceptT Breakdown m (Except SourceError (Option (Date × Date × Nat))) := do
  match ← d.bars? files code exchange with
  | .error e => return .error e
  | .ok bars? =>
    let bars := bars?.getD []
    match bars.head?, bars.getLast? with
    | some first, some last => return .ok (some (first.date, last.date, bars.length))
    | _, _ => return .ok none

end BarDirectory

end BarReplay
