import BarReplay.Rule.Text
import BarReplay.Text.Utf8

namespace BarReplay.Rule

-- What stands where something else was expected.
inductive Found where
  | endOfInput
  -- a word, or a character that belongs to none
  | token (s : String)

inductive ParseCause where
  | expectedChar (c : Char) (found : Found)
  | expectedNumber (found : Found)
  | expectedInteger (found : Found)
  | expectedIndicator (found : Found)
  | expectedRule (found : Found)
  | numberOutOfRange
  | zeroInteger
  | negativeMultiplier
  | fewRules (w : RuleWord)
  | trailing (rest : String)
  -- an integer with more digits than can be read
  | longInteger (digits : Nat)

-- `position` counts bytes of UTF-8. `key` names the setting that the text came from.
structure ParseError where
  cause : ParseCause
  position : Nat
  key : Option String

def Found.text : Found → String
  | endOfInput => "end of input"
  | token s => "'" ++ s ++ "'"

def ParseCause.message : ParseCause → String
  | expectedChar c f => "expected '" ++ c.toString ++ "', found " ++ f.text
  | expectedNumber f => "expected number, found " ++ f.text
  | expectedInteger f => "expected integer, found " ++ f.text
  | expectedIndicator f => "expected indicator, found " ++ f.text
  | expectedRule f => "expected rule, found " ++ f.text
  | numberOutOfRange => "number out of range"
  | zeroInteger => "expected positive integer, found '0'"
  | negativeMultiplier => "Bollinger multiplier must not be negative"
  | fewRules w => w.text ++ " requires at least 2 rules"
  | trailing rest => "unexpected input after rule: '" ++ rest ++ "'"
  | longInteger digits =>
    "Exceeds the limit (" ++ Decimal.text Decimal.digitLimit ++
      " digits) for integer string conversion: value has " ++ Decimal.text digits ++
      " digits; use sys.set_int_max_str_digits() to increase the limit"

namespace ParseError

def message (e : ParseError) : String :=
  match e.cause with
  | .longInteger _ => e.cause.message
  | _ =>
    (match e.key with
      | some k => if k.isEmpty then "" else k ++ ": "
      | none => "") ++
    "parse error at position " ++ Decimal.text e.position ++ ": " ++ e.cause.message

def withKey (e : ParseError) (key : String) : ParseError :=
  { e with key := some key }

-- The text with a caret under the position of the error, and the message.
def context (e : ParseError) (text : String) : String :=
  let column := Text.charsWithin e.position text.toList
  "  " ++ text ++ "\n  " ++ String.ofList (List.replicate column ' ') ++ "^\n  " ++
    e.cause.message

end ParseError

end BarReplay.Rule
