import BarReplay.Text.Classes

namespace BarReplay.CommandLine

-- How a command line ends that asks for nothing that can be done.
inductive Usage where
  -- it asks for help
  | help
  | misuse
  deriving DecidableEq

def Usage.exitCode : Usage → Nat
  | help => 0
  | misuse => 2

inductive Key where
  | help | verbose | config | strategy | dataDir | yahoo | code | exchange | output | dryRun
  deriving DecidableEq

-- An option by its names: two dashes and a word, or one dash and a letter.
structure Choice where
  key : Key
  names : List String
  takesValue : Bool

-- What a word of the command line is. `short` tells an option named by a letter from one named by
-- a word, and `attached` is what stands behind the name in the same word.
inductive Word where
  | plain (text : String)
  | choice (c : Choice) (short : Bool) (attached : Option (List Char))
  | unknown
  -- two dashes, after which every word is plain
  | dashes

-- Options with the name itself in place of all their names.
def namesOf (table : List Choice) : List (List Char × Choice) :=
  table.flatMap fun c => c.names.map fun name => (name.toList, c)

-- A minus sign and a decimal number.
def isNegativeNumber (s : List Char) : Bool :=
  let isDigit (c : Char) : Bool := (Text.decimalDigit? c).isSome
  match s with
  | '-' :: r =>
    let r := if r.getLast? = some '\n' then r.dropLast else r
    match r.dropWhile isDigit with
    | [] => !r.isEmpty
    | '.' :: fraction => !fraction.isEmpty && fraction.all isDigit
    | _ => false
  | _ => false

-- A word up to its first equals sign, and what stands behind that.
def splitValue (s : List Char) : List Char × Option (List Char) :=
  match s.dropWhile (· != '=') with
  | [] => (s, none)
  | _ :: value => (s.takeWhile (· != '='), some value)

-- The options that the beginning of a long name may stand for, or a letter with something
-- behind it.
def candidates (table : List Choice) (s : List Char) : List Word :=
  match s with
  | '-' :: '-' :: _ =>
    let (front, value) := splitValue s
    (namesOf table).filterMap fun (name, c) =>
      if front.isPrefixOf name then some (.choice c false value) else none
  | '-' :: letter :: rest =>
    (namesOf table).filterMap fun (name, c) =>
      if name = ['-', letter] then some (.choice c true (some rest)) else none
  | _ => []

-- What a word is. The beginning of a name will do if only one option has it.
def classify (table : List Choice) (text : String) : Except Usage Word :=
  let s := text.toList
  let isShort (name : List Char) : Bool := name.length == 2
  match s with
  | '-' :: _ :: _ =>
    let (front, value) := splitValue s
    match (namesOf table).lookup s, (namesOf table).lookup front, value with
    | some c, _, _ => .ok (.choice c (isShort s) none)
    | none, some c, some value => .ok (.choice c (isShort front) (some value))
    | _, _, _ =>
      match candidates table s with
      | [w] => .ok w
      | _ :: _ :: _ => .error .misuse
      | [] => .ok (if isNegativeNumber s || s.contains ' ' then .plain text else .unknown)
  | _ => .ok (.plain text)

def classifyAll (table : List Choice) : List String → Except Usage (List Word)
  | [] => .ok []
  | "--" :: rest => .ok (.dashes :: rest.map .plain)
  | text :: rest => do return (← classify table text) :: (← classifyAll table rest)

-- An option with its value, which is empty if it takes none.
abbrev Taken := List (Key × String)

-- The options that one word holds. The last one may still want a value.
structure Unfolded where
  taken : Taken
  wanting : Option Choice

-- An option that stands at the end of a word.
def alone (c : Choice) : Unfolded :=
  if c.takesValue then ⟨[], some c⟩ else ⟨[(c.key, "")], none⟩

-- Takes an option apart from what is attached to it. Letters of options without a value may
-- stand together, and the last one may have one.
def unfold (table : List Choice) (c : Choice) (short : Bool) : List Char → Except Usage Unfolded
  | [] => if c.takesValue then .ok ⟨[(c.key, "")], none⟩ else .error .misuse
  | letter :: rest =>
    if c.takesValue then .ok ⟨[(c.key, String.ofList (letter :: rest))], none⟩
    else if !short then .error .misuse
    else
      match (namesOf table).lookup ['-', letter] with
      | none => .error .misuse
      | some next => do
        let u ← if rest.isEmpty then .ok (alone next) else unfold table next true rest
        .ok { u with taken := (c.key, "") :: u.taken }

-- What has been given so far, and whether something was of no use.
structure Given where
  taken : Taken
  stray : Bool

-- Takes options one by one. Help ends everything, and bars come from one place only.
def Given.take (g : Given) : Taken → Except Usage Given
  | [] => .ok g
  | (key, value) :: rest =>
    let has (k : Key) : Bool := g.taken.any (·.1 = k)
    if key = .help then .error .help
    else if (key = .yahoo && has .dataDir) || (key = .dataDir && has .yahoo) then .error .misuse
    else ({ g with taken := g.taken ++ [(key, value)] } : Given).take rest

-- The options in a word, with what is attached to it.
def attachedOptions (table : List Choice) (c : Choice) (short : Bool) :
    Option (List Char) → Except Usage Unfolded
  | some text => unfold table c short text
  | none => .ok (alone c)

def Given.takeWords (table : List Choice) (g : Given) : List Word → Except Usage Given
  | [] => .ok g
  | .choice c short attached :: rest =>
    match attachedOptions table c short attached with
    | .error u => .error u
    | .ok ⟨taken, none⟩ => do (← g.take taken).takeWords table rest
    | .ok ⟨taken, some c⟩ =>
      match rest with
      | .plain value :: rest => do
        (← g.take (taken ++ [(c.key, value)])).takeWords table rest
      | _ => .error .misuse
  | _ :: rest => ({ g with stray := true } : Given).takeWords table rest

-- The text that a value holds. Two dashes, which can only be attached, hold none.
def textIn? (value : String) : Option String :=
  if value = "--" then none else some value

-- The value of an option, the last one of several.
def Given.value? (g : Given) (key : Key) : Option String :=
  g.taken.reverse.lookup key

def Given.has (g : Given) (key : Key) : Bool :=
  (g.value? key).isSome

end BarReplay.CommandLine
