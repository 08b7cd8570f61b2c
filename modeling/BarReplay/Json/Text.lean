import BarReplay.Json.Basic
import BarReplay.Text.Quoted

namespace BarReplay.Json

-- A character of a JSON string.
def escapedChar (c : Char) : String :=
  if c = '"' then "\\\""
  else if c = '\\' then "\\\\"
  else if c = '\n' then "\\n"
  else if c = '\r' then "\\r"
  else if c = '\t' then "\\t"
  else if c.toNat < 0x20 then "\\u" ++ Text.hex 4 c.toNat
  else c.toString

def escaped (s : String) : String :=
  "\"" ++ s.foldl (fun t c => t ++ escapedChar c) "" ++ "\""

mutual

-- The compact JSON text. A number that is not finite has its name in quotes.
def compact : Json → String
  | null => "null"
  | bool b => if b then "true" else "false"
  | int n => Decimal.textInt n
  | real x => if x.isFinite then Decimal.shortest x else escaped (Decimal.shortest x)
  | text s => escaped s
  | list items => "[" ++ ",".intercalate (compactItems items) ++ "]"
  | object members => "\x7b" ++ ",".intercalate (compactMembers members) ++ "\x7d"

def compactItems : List Json → List String
  | [] => []
  | x :: xs => x.compact :: compactItems xs

def compactMembers : List (String × Json) → List String
  | [] => []
  | (name, x) :: ms => (escaped name ++ ":" ++ x.compact) :: compactMembers ms

end

mutual

-- The text of a value inside a message: texts are quoted, and absence is `None`.
def display : Json → String
  | null => "None"
  | bool b => if b then "True" else "False"
  | int n => Decimal.textInt n
  | real x => Decimal.shortest x
  | text s => Text.quoted s
  | list items => "[" ++ ", ".intercalate (displayItems items) ++ "]"
  | object members => "\x7b" ++ ", ".intercalate (displayMembers members) ++ "\x7d"

def displayItems : List Json → List String
  | [] => []
  | x :: xs => x.display :: displayItems xs

def displayMembers : List (String × Json) → List String
  | [] => []
  | (name, x) :: ms => (Text.quoted name ++ ": " ++ x.display) :: displayMembers ms

end

end BarReplay.Json
