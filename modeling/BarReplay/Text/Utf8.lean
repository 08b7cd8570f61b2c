import BarReplay.Decimal.Digits
import BarReplay.Text.Quoted

namespace BarReplay.Text

-- The length of a text in bytes of UTF-8.
def utf8Length (cs : List Char) : Nat :=
  cs.foldl (fun n c => n + c.utf8Size) 0

-- How many characters fit whole into the first `bytes` bytes.
def charsWithin (bytes : Nat) : List Char → Nat
  | [] => 0
  | c :: cs => if c.utf8Size ≤ bytes then charsWithin (bytes - c.utf8Size) cs + 1 else 0

namespace Utf8

inductive Flaw where
  -- no character begins with the byte
  | start
  -- a byte does not go on with the character before it
  | continuation
  -- the bytes end inside a character
  | ending
  deriving DecidableEq

def Flaw.message : Flaw → String
  | start => "invalid start byte"
  | continuation => "invalid continuation byte"
  | ending => "unexpected end of data"

-- Bytes that are no character: the first of them, where it stands, and how many they are.
structure Error where
  first : UInt8
  position : Nat
  count : Nat
  flaw : Flaw
  deriving DecidableEq

def Error.message (e : Error) : String :=
  "'utf-8' codec can't decode " ++
    (if e.count = 1 then "byte 0x" ++ hex 2 e.first.toNat ++ " in position " ++ Decimal.text e.position
      else "bytes in position " ++ Decimal.text e.position ++ "-" ++
        Decimal.text (e.position + e.count - 1)) ++
    ": " ++ e.flaw.message

-- A character of which some bytes are still owed. The next one lies between `low` and `high`,
-- those after it between 0x80 and 0xBF. `value` is made of the bytes read so far.
structure Partial where
  first : UInt8
  read : Nat
  owed : Nat
  low : Nat
  high : Nat
  value : Nat

-- What the first byte of a character of several bytes promises. The narrow ranges leave out
-- what has a shorter form, the surrogates and what is above the last code point.
def Partial.ofFirst? (b : UInt8) : Option Partial :=
  let n := b.toNat
  if n < 0xC2 then none
  else if n < 0xE0 then some ⟨b, 1, 1, 0x80, 0xBF, n - 0xC0⟩
  else if n < 0xF0 then
    some ⟨b, 1, 2, if n = 0xE0 then 0xA0 else 0x80, if n = 0xED then 0x9F else 0xBF, n - 0xE0⟩
  else if n < 0xF5 then
    some ⟨b, 1, 3, if n = 0xF0 then 0x90 else 0x80, if n = 0xF4 then 0x8F else 0xBF, n - 0xF0⟩
  else none

-- What has been read: the text, last character first, the character that is not complete yet,
-- and the position of the next byte.
structure State where
  text : List Char
  open? : Option Partial
  position : Nat

def State.step (s : State) (b : UInt8) : Except Error State :=
  let n := b.toNat
  match s.open? with
  | none =>
    if n < 0x80 then .ok ⟨Char.ofNat n :: s.text, none, s.position + 1⟩
    else
      match Partial.ofFirst? b with
      | some p => .ok ⟨s.text, some p, s.position + 1⟩
      | none => .error ⟨b, s.position, 1, .start⟩
  | some p =>
    if n < p.low ∨ p.high < n then .error ⟨p.first, s.position - p.read, p.read, .continuation⟩
    else
      let value := p.value * 64 + (n - 0x80)
      if p.owed ≤ 1 then .ok ⟨Char.ofNat value :: s.text, none, s.position + 1⟩
      else .ok ⟨s.text, some ⟨p.first, p.read + 1, p.owed - 1, 0x80, 0xBF, value⟩, s.position + 1⟩

def State.finish (s : State) : Except Error (List Char) :=
  match s.open? with
  | none => .ok s.text.reverse
  | some p => .error ⟨p.first, s.position - p.read, p.read, .ending⟩

-- The text of a whole run of bytes.
def decode (bytes : List UInt8) : Except Error (List Char) := do
  (← bytes.foldlM State.step ⟨[], none, 0⟩).finish

-- Parts of `size + 1` elements, the last one shorter if need be.
def blocks {β : Type} (size : Nat) (xs : List β) : List (List β) :=
  match xs with
  | [] => []
  | x :: rest => (x :: rest.take size) :: blocks size (rest.drop size)
termination_by xs.length
decreasing_by simp only [List.length_cons, List.length_drop]; omega

-- A text that is read block by block. Nothing comes of a block with a flaw in it, and the
-- text before it stands.
structure Decoded where
  text : List Char
  flaw : Option Error

-- Two bytes that begin a surrogate. No character comes of them, but a block may end with them as
-- it may end inside a character.
def isSurrogateStart (bytes : List UInt8) : Bool :=
  match bytes with
  | [a, b] => a.toNat == 0xED && 0xA0 ≤ b.toNat && b.toNat ≤ 0xBF
  | _ => false

-- Goes on with a text, last character first, by what is complete in some bytes. The bytes behind
-- it are left over.
def decodeOpen (text : List Char) (bytes : List UInt8) : Except Error (List Char × List UInt8) :=
  match bytes.foldlM State.step ⟨text, none, 0⟩ with
  | .ok s =>
    let left := (s.open?.map Partial.read).getD 0
    .ok (s.text, bytes.drop (bytes.length - left))
  | .error e =>
    if isSurrogateStart (bytes.drop e.position) then do
      let s ← (bytes.take e.position).foldlM State.step ⟨text, none, 0⟩
      .ok (s.text, bytes.drop e.position)
    else .error e

-- What one block leaves over goes before the next one, and positions count from there.
def decodeBlocks (text : List Char) (left : List UInt8) : List (List UInt8) → Decoded
  | [] =>
    match do (← left.foldlM State.step ⟨text, none, 0⟩).finish with
    | .ok text => ⟨text, none⟩
    | .error e => ⟨text.reverse, some e⟩
  | block :: rest =>
    match decodeOpen text (left ++ block) with
    | .ok (text, left) => decodeBlocks text left rest
    | .error e => ⟨text.reverse, some e⟩

-- Files are read 8192 bytes at a time.
def decodeStream (bytes : List UInt8) : Decoded :=
  decodeBlocks [] [] (blocks 8191 bytes)

end Utf8

end BarReplay.Text
