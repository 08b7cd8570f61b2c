import BarReplay.CommandLine.Options

namespace BarReplay.CommandLine

-- What a backtest is asked to do. Texts that are empty count as not given, except for that of
-- the settings.
structure BacktestOptions where
  config : Option String
  strategy : Option String
  dataDir : Option String
  yahoo : Bool
  code : Option String
  exchange : Option String
  output : Option String
  dryRun : Bool

-- A value that is needed may still hold no text.
inductive Command where
  | backtest (options : BacktestOptions)
  | validate (strategy : Option String)
  | listSymbols (exchange dataDir : Option String)

def helpChoice : Choice := ⟨.help, ["-h", "--help"], false⟩

-- What every command takes.
def commonChoices : List Choice := [helpChoice, ⟨.verbose, ["--verbose", "-v"], false⟩]

def backtestChoices : List Choice :=
  commonChoices ++
    [⟨.config, ["--config"], true⟩, ⟨.strategy, ["--strategy"], true⟩,
      ⟨.dataDir, ["--data-dir"], true⟩, ⟨.yahoo, ["--yahoo"], false⟩, ⟨.code, ["--code"], true⟩,
      ⟨.exchange, ["--exchange"], true⟩, ⟨.output, ["--output", "-o"], true⟩,
      ⟨.dryRun, ["--dry-run"], false⟩]

def validateChoices : List Choice :=
  commonChoices ++ [⟨.strategy, ["--strategy"], true⟩]

def listChoices : List Choice :=
  commonChoices ++ [⟨.exchange, ["--exchange"], true⟩, ⟨.dataDir, ["--data-dir"], true⟩]

def require (g : Given) (key : Key) : Except Usage (Option String) :=
  match g.value? key with
  | some value => .ok (textIn? value)
  | none => .error .misuse

def given (table : List Choice) (args : List String) : Except Usage Given := do
  Given.takeWords table ⟨[], false⟩ (← classifyAll table args)

-- The command of a name. Everything it needs has to be there, and nothing else.
def readCommand (stray : Bool) (name : String) (args : List String) : Except Usage Command := do
  let (command, g) ←
    match name with
    | "backtest" => do
      let g ← given backtestChoices args
      let config ← require g .config
      let filled (key : Key) : Option String := ((g.value? key).bind textIn?).filter (!·.isEmpty)
      pure (.backtest ⟨config, filled .strategy, filled .dataDir, g.has .yahoo, filled .code,
        filled .exchange, filled .output, g.has .dryRun⟩, g)
    | "validate" => do
      let g ← given validateChoices args
      pure (.validate (← require g .strategy), g)
    | "list-symbols" => do
      let g ← given listChoices args
      pure (.listSymbols (← require g .exchange) (← require g .dataDir), g)
    | _ => .error .misuse
  if stray || g.stray then .error .misuse else .ok command

-- Reads a command line: the name of a command with what belongs to it.
def Command.parse (stray : Bool) : List String → Except Usage Command
  | [] => .error .misuse
  | "--" :: _ => .error .misuse
  | text :: rest => do
    match ← classify [helpChoice] text with
    | .plain name => readCommand stray name rest
    | .choice c short attached =>
      let _ ← attachedOptions [helpChoice] c short attached
      .error .help
    | _ => Command.parse true rest

end BarReplay.CommandLine
