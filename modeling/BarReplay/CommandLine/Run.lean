import BarReplay.CommandLine.Command
import BarReplay.Config.Ini
import BarReplay.Config.Load
import BarReplay.Market.BarDirectory
import BarReplay.Report.Text
import BarReplay.Yahoo.Source

namespace BarReplay.CommandLine

-- What commands need of the world, with effects in `m`.
structure World (m : Type → Type) where
  files : FileAccess m
  charts : Yahoo.Charts m
  statistics : Metrics.Statistics Float

-- What a command leaves behind: its status and what it printed.
structure Outcome where
  exitCode : Nat
  out : String
  err : String

-- What ends a command that has nothing to say about it.
inductive Abort where
  | file (error : FileError)
  | encoding (error : Text.Utf8.Error)
  | bars (cause : BarDirectory.Breakdown)
  | charts (cause : Yahoo.Breakdown)
  | arithmetic (fault : Fault)
  | value (reason : String)
  -- an option that needs a text has none
  | noText (key : Key)

def Abort.message : Abort → String
  | file e => e.message
  | encoding e => e.message
  | bars cause => cause.message
  | charts cause => cause.message
  | arithmetic f => f.message
  | value reason => reason
  | noText _ => "an option has no text"

-- Why a command ends early.
inductive Stop where
  -- with a message, and with the text that the message is about
  | failure (message : String) (exitCode : Nat) (context : Option String)
  | abort (cause : Abort)

namespace Stop

def ofConfig : Config.Error → Stop
  | .rule e =>
    match e.cause with
    | .longInteger _ => abort (.value e.message)
    | _ => failure e.message (Config.Error.rule e).exitCode none
  | e => failure e.message e.exitCode none

def ofUniverse (e : Universe.Error) : Stop :=
  failure e.message e.exitCode none

def ofRun : UniverseRunError → Stop
  | .universe e => ofUniverse e
  | .engine (.duplicateCodes codes) => abort (.value ("duplicate codes: " ++ ", ".intercalate codes))
  | .engine (.step (.arithmetic f)) => abort (.arithmetic f)
  | .engine (.step f) => failure f.message 1 none

end Stop

variable {m : Type → Type} [Monad m]

-- What a command does.
abbrev Action (m : Type → Type) (β : Type) := ExceptT Stop m β

def settled {ε β : Type} (stop : ε → Stop) (r : Except ε β) : Action m β :=
  ExceptT.mk (pure (r.mapError stop))

-- Line ends of all kinds become line feeds.
def unifyLineEnds : List Char → List Char
  | '\r' :: '\n' :: rest => '\n' :: unifyLineEnds rest
  | '\r' :: rest => '\n' :: unifyLineEnds rest
  | c :: rest => c :: unifyLineEnds rest
  | [] => []

-- The text of an option that needs one.
def textOf (key : Key) : Option String → Action m String
  | some text => pure text
  | none => throw (.abort (.noText key))

-- The settings in an INI file.
def readConfig (w : World m) (name : String) : Action m Config.Source := do
  let path := FilePath.ofText name
  if !(← settled (fun e => .abort (.file e)) (← ExceptT.lift (w.files.has path))) then
    throw (.failure ("config file not found: " ++ path.text) 2 none)
  let bytes ← settled (fun e => .abort (.file e)) (← ExceptT.lift (w.files.read path))
  let text ← settled (fun e => .abort (.encoding e)) (Text.Utf8.decode bytes)
  match Config.Ini.load (String.ofList (unifyLineEnds text)) with
  | .ok ini => return ini.source
  | .error e => throw (.failure (path.text ++ ": " ++ e.message) e.exitCode none)

-- The strategy in settings. A rule that cannot be read is shown with its text.
def readStrategy (s : Config.Source) : Action m (Strategy Float) :=
  match Config.loadStrategy s with
  | .ok strategy => pure strategy
  | .error e =>
    match Stop.ofConfig e, e with
    | .failure message exitCode _, .rule r =>
      throw (.failure message exitCode (r.key.bind fun key => (s "strategy" key).map r.context))
    | stop, _ => throw stop

-- Where a backtest gets its bars.
def barSource (w : World m) (o : BacktestOptions) (s : Config.Source) :
    Except Stop (BarSource Float (ExceptT Stop m)) :=
  if o.yahoo then
    let source := Yahoo.source Yahoo.suffixes w.charts
    .ok fun code exchange start last =>
      ExceptT.adapt (fun e => .abort (.charts e)) (source code exchange start last)
  else
    match (o.dataDir.orElse fun _ => s "data" "dir").filter (!·.isEmpty) with
    | none => .error (.ofConfig (.missing "data" "dir"))
    | some dir =>
      let source := (BarDirectory.mk (FilePath.ofText dir)).source w.files
      .ok fun code exchange start last =>
        ExceptT.adapt (fun e => .abort (.bars e)) (source code exchange start last)

def lines (ls : List String) : String :=
  String.join (ls.map (· ++ "\n"))

def dateText (d : Option Date) : String :=
  (d.map Date.iso).getD "None"

-- Runs a strategy and reports on the run, or only says what would be run.
def backtest (w : World m) (o : BacktestOptions) : Action m String := do
  let config ← readConfig w (← textOf .config o.config)
  let strategySource ←
    match o.strategy with
    | some name => readConfig w name
    | none => pure config
  let settings ← settled .ofConfig (Config.loadSettings config)
  let strategy ← readStrategy strategySource
  let codes ← settled .ofConfig (Config.resolveCodes config o.code)
  let exchange ←
    match o.exchange with
    | some e => pure (Text.upper e)
    | none => settled .ofConfig (Config.loadExchange config)
  let source ← settled id (barSource w o config)
  if o.dryRun then
    let v ← settled .ofUniverse (← Universe.validate source codes exchange settings.startDate
      settings.endDate minimumBars)
    return lines (["Strategy:    " ++ strategy.name,
      "Period:      " ++ dateText settings.startDate ++ " to " ++ dateText settings.endDate,
      "Instruments: " ++ ", ".intercalate v.codes ++ " (" ++ exchange ++ ")"] ++
      v.skipped.map (fun s => "Skipped:     " ++ s.describe) ++ ["Configuration OK"])
  else
    let result ← settled .ofRun (← runUniverse source settings strategy codes exchange)
    let metrics ← settled (fun f => .abort (.arithmetic f))
      (result.portfolio.performance w.statistics result.settings.riskFreeRate)
    let text ← settled (fun f => .abort (.arithmetic f)) (Report.text result metrics)
    match o.output with
    | none => return lines [text]
    | some name =>
      let written ← ExceptT.lift (w.files.write (FilePath.ofText name) (lines [text]))
      settled (fun e => .abort (.file e)) written
      return ""

-- Says what is in a strategy.
def validate (w : World m) (name : Option String) : Action m String := do
  let s ← readStrategy (← readConfig w (← textOf .strategy name))
  let rule (label : String) (r : Option (Rule Float)) : List String :=
    (r.map fun r => label ++ r.text).toList
  let indicators := ", ".intercalate (s.indicators.map (·.text))
  return lines (["Strategy:    " ++ s.name] ++ rule "entry_long:  " (some s.entryLong) ++
    rule "exit_long:   " (some s.exitLong) ++ rule "entry_short: " s.entryShort ++
    rule "exit_short:  " s.exitShort ++
    ["Indicators:  " ++ (if indicators.isEmpty then "(none)" else indicators), "Strategy OK"])

def listSymbols (w : World m) (exchange dataDir : Option String) : Action m String := do
  let dir ← textOf .dataDir dataDir
  let exchange ← textOf .exchange exchange
  let found ← ExceptT.adapt (fun e => .abort (.bars e))
    ((BarDirectory.mk (FilePath.ofText dir)).symbols w.files (Text.upper exchange))
  let codes ← settled (fun (e : SourceError) => .failure e.message e.exitCode none) found
  return lines codes

def Command.action (w : World m) : Command → Action m String
  | .backtest o => CommandLine.backtest w o
  | .validate strategy => CommandLine.validate w strategy
  | .listSymbols exchange dataDir => CommandLine.listSymbols w exchange dataDir

-- Runs a command. What fails says so and sets the status.
def Command.run (w : World m) (c : Command) : m (Except Abort Outcome) := do
  match ← (c.action w).run with
  | .ok out => return .ok ⟨0, out, ""⟩
  | .error (.failure message exitCode context) =>
    return .ok ⟨exitCode, "", lines (context.toList ++ ["error: " ++ message])⟩
  | .error (.abort cause) => return .error cause

end BarReplay.CommandLine
