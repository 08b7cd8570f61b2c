import BarReplay.Text.Classes

namespace BarReplay.Machine.Variables

open Text

-- A line of a file of variables: a name without an equals sign has no value.
abbrev Binding := String × Option String

-- White space within a line.
def isSpace (c : Char) : Bool :=
  isBlank c && c != '\n' && c != '\r'

def isLineEnd (c : Char) : Bool :=
  c = '\n' || c = '\r'

def skipSpace (s : List Char) : List Char :=
  s.dropWhile isSpace

-- A text up to and without a line end.
def lineRest (s : List Char) : List Char :=
  s.dropWhile (!isLineEnd ·)

-- The word `export` and the space behind it do not belong to a name.
def skipExport (s : List Char) : List Char :=
  match s with
  | 'e' :: 'x' :: 'p' :: 'o' :: 'r' :: 't' :: c :: r => if isSpace c then skipSpace r else s
  | _ => s

-- A name, in single quotes or without; a comment stands where there is none.
def name? (s : List Char) : Option (Option String × List Char) :=
  match s with
  | '#' :: _ => some (none, s)
  | '\x27' :: r =>
    match r.dropWhile (· != '\x27') with
    | _ :: rest =>
      let name := r.takeWhile (· != '\x27')
      if name.isEmpty then none else some (some (String.ofList name), rest)
    | [] => none
  | _ =>
    let inName (c : Char) : Bool := c != '=' && c != '#' && !isBlank c
    let name := s.takeWhile inName
    if name.isEmpty then none else some (some (String.ofList name), s.dropWhile inName)

-- The text up to a closing quote, and what follows. A backslash and the character behind it
-- belong together, so that the quote does not close there.
def untilQuote? (quote : Char) : List Char → Option (List Char × List Char)
  | [] => none
  | '\\' :: [] => none
  | '\\' :: c :: r =>
    (untilQuote? quote r).map fun (inside, rest) => ('\\' :: c :: inside, rest)
  | c :: r =>
    if c = quote then some ([], r)
    else (untilQuote? quote r).map fun (inside, rest) => (c :: inside, rest)

-- Replaces escapes of a backslash and a character that stands for another.
def unescape (meaning : Char → Option Char) : List Char → List Char
  | '\\' :: c :: r =>
    match meaning c with
    | some d => d :: unescape meaning r
    | none => '\\' :: unescape meaning (c :: r)
  | c :: r => c :: unescape meaning r
  | [] => []

def singleMeaning (c : Char) : Option Char :=
  if c = '\\' ∨ c = '\x27' then some c else none

def doubleMeaning (c : Char) : Option Char :=
  match c with
  | '\\' => some '\\'
  | '\x27' => some '\x27'
  | '"' => some '"'
  | 'a' => some (Char.ofNat 7)
  | 'b' => some (Char.ofNat 8)
  | 'f' => some (Char.ofNat 12)
  | 'n' => some '\n'
  | 'r' => some '\r'
  | 't' => some '\t'
  | 'v' => some (Char.ofNat 11)
  | _ => none

-- A value without quotes ends where white space and a number sign begin a comment. The space
-- behind the equals sign counts.
def cutComment : List Char → List Char
  | [] => []
  | c :: r =>
    if isBlank c && (r.dropWhile isBlank).head? == some '#' then [] else c :: cutComment r

-- The value behind an equals sign, and what follows it.
def value? (s : List Char) : Option (String × List Char) :=
  match skipSpace s with
  | '\x27' :: r =>
    (untilQuote? '\x27' r).map fun (v, rest) =>
      (String.ofList (unescape singleMeaning v), rest)
  | '"' :: r =>
    (untilQuote? '"' r).map fun (v, rest) =>
      (String.ofList (unescape doubleMeaning v), rest)
  | _ => some (strip (String.ofList (cutComment (s.takeWhile (!isLineEnd ·)))), lineRest s)

-- What follows a binding in its line: nothing, or a comment.
def endOfLine? (s : List Char) : Option (List Char) :=
  let s := match skipSpace s with
    | '#' :: r => lineRest r
    | r => r
  match s with
  | [] => some []
  | '\r' :: '\n' :: r => some r
  | c :: r => if isLineEnd c then some r else none

-- Skips a line that cannot be read.
def skipLine (s : List Char) : List Char :=
  match lineRest s with
  | [] => []
  | _ :: r => r

-- One binding, or none where a line holds only a comment or cannot be read; and what follows.
-- What cannot be read is skipped from there to the end of its line.
def binding (s : List Char) : Option Binding × List Char :=
  match name? (skipExport s) with
  | none => (none, skipLine (skipExport s))
  | some (name, r) =>
    let r := skipSpace r
    let (value, r) :=
      match r with
      | '=' :: t =>
        match value? t with
        | some (v, u) => (some (some v), u)
        | none => (none, t)
      | r => (some none, r)
    match value with
    | none => (none, skipLine r)
    | some value =>
      match endOfLine? r with
      | some rest => (name.map fun n => (n, value), rest)
      | none => (none, skipLine r)

-- All bindings. Each step reads at least one character, so `fuel` can be the length.
def bindings : Nat → List Char → List Binding
  | 0, _ => []
  | fuel + 1, s =>
    match s.dropWhile isBlank with
    | [] => []
    | t =>
      let (b, rest) := binding t
      b.toList ++ bindings fuel rest

-- Line ends as line feeds.
def plainLines : List Char → List Char
  | '\r' :: '\n' :: r => '\n' :: plainLines r
  | '\r' :: r => '\n' :: plainLines r
  | c :: r => c :: plainLines r
  | [] => []

-- A reference to a variable at the front, after its dollar sign: the name, a default if one is
-- given, and what follows.
def reference? (s : List Char) : Option (String × String × List Char) :=
  match s with
  | '\x7b' :: r =>
    let name := String.ofList (r.takeWhile fun c => c != '\x7d' && c != ':')
    match r.dropWhile fun c => c != '\x7d' && c != ':' with
    | '\x7d' :: rest => some (name, "", rest)
    | ':' :: '-' :: t =>
      match t.dropWhile (· != '\x7d') with
      | _ :: rest => some (name, String.ofList (t.takeWhile (· != '\x7d')), rest)
      | [] => none
    | _ => none
  | _ => none

-- Replaces references by values. A name without a value is empty, an unknown one has its
-- default. `fuel` bounds the length.
def expand (known : List Binding) : Nat → List Char → List Char
  | 0, s => s
  | _ + 1, [] => []
  | fuel + 1, c :: r =>
    if c = '$' then
      match reference? r with
      | some (name, default, rest) =>
        let value := match known.lookup name with
          | some v => v.getD ""
          | none => default
        value.toList ++ expand known fuel rest
      | none => c :: expand known fuel r
    else c :: expand known fuel r

def put (known : List Binding) (name : String) (value : Option String) : List Binding :=
  if known.any (·.1 == name) then
    known.map fun b => if b.1 == name then (name, value) else b
  else
    known ++ [(name, value)]

-- Variables with references to earlier ones replaced. Of several of one name the last counts.
def resolve (bs : List Binding) : List Binding :=
  bs.foldl (fun known (name, value) =>
    put known name (value.map fun v =>
      String.ofList (expand known (v.length + 1) v.toList))) []

-- A mark of the encoding in front of a text does not belong to it.
def withoutMark : List Char → List Char
  | '\uFEFF' :: r => r
  | cs => cs

-- The variables of a file that have a value.
def load (text : String) : List (String × String) :=
  let cs := plainLines (withoutMark text.toList)
  (resolve (bindings (cs.length + 1) cs)).filterMap fun (name, value) => value.map (name, ·)

end BarReplay.Machine.Variables
