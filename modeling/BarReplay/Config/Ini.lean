import BarReplay.Config.Source

namespace BarReplay.Config

open Text

-- Sections with their options, as written in an INI text. Options before a section are not
-- allowed; those of the section of defaults hold in every section.
structure Ini where
  defaults : List (String × String)
  sections : List (String × List (String × String))
  deriving DecidableEq

-- Why a text is not INI. Lines count from one.
inductive IniError where
  | duplicateSection (line : Nat) (name : String)
  | duplicateOption (line : Nat) (sect option : String)
  | missingHeader (line : Nat) (text : String)
  -- lines that are neither headers nor options
  | malformed (lines : List (Nat × String))
  deriving DecidableEq

namespace Ini

-- The name of the source in messages.
def sourceName : String := "'<string>'"

def lineNumber (n : Nat) : String :=
  let t := Decimal.text n
  "[line " ++ (if n < 10 then " " else "") ++ t ++ "]"

end Ini

def IniError.message : IniError → String
  | duplicateSection line name =>
    "While reading from " ++ Ini.sourceName ++ " " ++ Ini.lineNumber line ++ ": section " ++
      quoted name ++ " already exists"
  | duplicateOption line sect option =>
    "While reading from " ++ Ini.sourceName ++ " " ++ Ini.lineNumber line ++ ": option " ++
      quoted option ++ " in section " ++ quoted sect ++ " already exists"
  | missingHeader line text =>
    "File contains no section headers.\nfile: " ++ Ini.sourceName ++ ", line: " ++
      Decimal.text line ++ "\n" ++ quoted text
  | malformed lines =>
    "Source contains parsing errors: " ++ Ini.sourceName ++
      String.join (lines.map fun (n, text) => "\n\t" ++ Ini.lineNumber n ++ ": " ++ quoted text)

namespace Ini

-- Lines with their line feeds. `line` is what has been read of the current one, last character
-- first.
def splitLines (line : List Char) : List Char → List String
  | [] => if line.isEmpty then [] else [String.ofList line.reverse]
  | c :: rest =>
    if c = '\n' then String.ofList (c :: line).reverse :: splitLines [] rest
    else splitLines (c :: line) rest

-- An option while its lines are collected. A last line that is blank does not count.
structure Item where
  name : String
  lines : List String

-- The section of defaults.
def defaultName : String := "DEFAULT"

-- What has been read. `indent` is that of the last header or option; `continued` names the
-- option that an indented line belongs to.
structure State where
  sections : List (String × List Item)
  current : Option String
  continued : Option String
  indent : Nat
  malformed : List (Nat × String)

def State.start : State := ⟨[], none, none, 0, []⟩

def State.items (s : State) (sect : String) : List Item :=
  (s.sections.lookup sect).getD []

def State.update (s : State) (sect : String) (f : List Item → List Item) : State :=
  { s with
    sections := s.sections.map fun entry =>
      if entry.1 == sect then (entry.1, f entry.2) else entry }

-- Adds a line to the option that is continued.
def State.extend (s : State) (line : String) : State :=
  match s.current, s.continued with
  | some sect, some option =>
    s.update sect fun items => items.map fun i =>
      if i.name == option then { i with lines := i.lines ++ [line] } else i
  | _, _ => s

-- The name in a header: what stands between the first bracket, at the front, and the last
-- closing one.
def header? (value : List Char) : Option String :=
  match value with
  | '[' :: rest =>
    match rest.reverse.dropWhile (· != ']') with
    | _ :: name => if name.isEmpty then none else some (String.ofList name.reverse)
    | [] => none
  | _ => none

-- The name and the value of an option, with the first equals sign or colon between them.
def option? (value : List Char) : Option (String × String) :=
  let isMark (c : Char) : Bool := c = '=' || c = ':'
  match value.dropWhile (!isMark ·) with
  | [] => none
  | _ :: rest =>
    some (strip (String.ofList (value.takeWhile (!isMark ·))), strip (String.ofList rest))

def State.openSection (s : State) (line : Nat) (name : String) : Except IniError State :=
  if name == defaultName then
    .ok { s with
      sections := if s.sections.any (·.1 == name) then s.sections else s.sections ++ [(name, [])]
      current := some name
      continued := none }
  else if s.sections.any (·.1 == name) then
    .error (.duplicateSection line name)
  else
    .ok { s with
      sections := s.sections ++ [(name, [])]
      current := some name
      continued := none }

-- Reads a line that holds something and continues nothing.
def State.readItem (s : State) (line : Nat) (text : String) (value : List Char) :
    Except IniError State :=
  match header? value, s.current with
  | some name, _ => s.openSection line name
  | none, none => .error (.missingHeader line text)
  | none, some sect =>
    match option? value with
    | none => .ok { s with malformed := s.malformed ++ [(line, text)] }
    | some (name, value) =>
      let s := if name.isEmpty then { s with malformed := s.malformed ++ [(line, text)] } else s
      let name := lower name
      if (s.items sect).any (·.name == name) then
        .error (.duplicateOption line sect name)
      else
        let s := s.update sect (· ++ [⟨name, [value]⟩])
        .ok { s with continued := if name.isEmpty then none else some name }

-- Reads a line. Comments begin with a number sign or a semicolon; a blank line may belong to
-- a value, and so does a line that is indented deeper than the option before it.
def State.readLine (s : State) (line : Nat) (text : String) : Except IniError State :=
  let value := (strip text).toList
  match value with
  | [] => .ok (s.extend "")
  | c :: _ =>
    if c = '#' ∨ c = ';' then .ok s
    else
      let indent := (text.toList.takeWhile isBlank).length
      if s.continued.isSome ∧ s.indent < indent then
        .ok (s.extend (String.ofList value))
      else
        { s with indent := indent }.readItem line text value

def State.readLines (s : State) (line : Nat) : List String → Except IniError State
  | [] => .ok s
  | text :: rest => do (← s.readLine line text).readLines (line + 1) rest

-- The text of an option: its lines, without white space at the end.
def Item.value (i : Item) : String :=
  String.ofList (((("\n".intercalate i.lines).toList.reverse).dropWhile isBlank).reverse)

def State.finish (s : State) : Except IniError Ini :=
  if s.malformed.isEmpty then
    let read := s.sections.map fun (name, items) => (name, items.map fun i => (i.name, i.value))
    .ok ⟨(read.lookup defaultName).getD [], read.filter (·.1 != defaultName)⟩
  else
    .error (.malformed s.malformed)

def parse (text : String) : Except IniError Ini := do
  (← State.start.readLines 1 (splitLines [] text.toList)).finish

-- Options in any case; the defaults stand in for what a section does not say.
def source (ini : Ini) : Source := fun sect key =>
  let key := lower key
  if sect == defaultName then ini.defaults.lookup key
  else
    match ini.sections.lookup sect with
    | none => none
    | some options => (options.lookup key).orElse fun _ => ini.defaults.lookup key

def load (text : String) : Except Error Ini :=
  (parse text).mapError fun e => .unusable ("invalid INI: " ++ e.message)

end Ini

end BarReplay.Config
