import BarReplay.Json.Basic

namespace BarReplay.Json

open Decimal

-- Why a text is not JSON.
inductive ParseCause where
  | byteOrderMark
  | expectedValue
  | expectedName
  | expectedColon
  | expectedComma
  | extraData
  | unterminatedString
  | controlCharacter
  | invalidEscape
  | invalidUnicodeEscape
  -- a whole number with too many digits
  | longInteger (digits : Nat)

-- `line` and `column` count from one, `offset` from zero, all of them in characters.
structure ParseError where
  cause : ParseCause
  line : Nat
  column : Nat
  offset : Nat

def ParseCause.message : ParseCause → String
  | byteOrderMark => "Unexpected UTF-8 BOM (decode using utf-8-sig)"
  | expectedValue => "Expecting value"
  | expectedName => "Expecting property name enclosed in double quotes"
  | expectedColon => "Expecting ':' delimiter"
  | expectedComma => "Expecting ',' delimiter"
  | extraData => "Extra data"
  | unterminatedString => "Unterminated string starting at"
  | controlCharacter => "Invalid control character at"
  | invalidEscape => "Invalid \\escape"
  | invalidUnicodeEscape => "Invalid \\uXXXX escape"
  | longInteger digits =>
    "Exceeds the limit (" ++ Decimal.text digitLimit ++
      " digits) for integer string conversion: value has " ++ Decimal.text digits ++
      " digits; use sys.set_int_max_str_digits() to increase the limit"

def ParseError.message (e : ParseError) : String :=
  match e.cause with
  | .longInteger _ => e.cause.message
  | _ =>
    e.cause.message ++ ": line " ++ Decimal.text e.line ++ " column " ++ Decimal.text e.column ++
      " (char " ++ Decimal.text e.offset ++ ")"

namespace Parser

structure Failure where
  cause : ParseCause
  front : List Char

abbrev Rest (s : List Char) := { r : List Char // r.length < s.length }

abbrev Step (β : Type) (s : List Char) := Except Failure (β × Rest s)

def isSpace (c : Char) : Bool :=
  c = ' ' || c = '\t' || c = '\n' || c = '\r'

def skipSpace (s : List Char) : List Char :=
  s.dropWhile isSpace

theorem skipSpace_length (s : List Char) : (skipSpace s).length ≤ s.length :=
  (List.dropWhile_sublist isSpace).length_le

def hexDigit? (c : Char) : Option Nat :=
  if c.isDigit then some (c.toNat - '0'.toNat)
  else if 'a' ≤ c ∧ c ≤ 'f' then some (c.toNat - 'a'.toNat + 10)
  else if 'A' ≤ c ∧ c ≤ 'F' then some (c.toNat - 'A'.toNat + 10)
  else none

-- Four hexadecimal digits that are not the end of the text.
def hexFour? : List Char → Option Nat
  | a :: b :: c :: d :: _ :: _ => do
    let a ← hexDigit? a
    let b ← hexDigit? b
    let c ← hexDigit? c
    let d ← hexDigit? d
    return ((a * 16 + b) * 16 + c) * 16 + d
  | _ => none

def isHighSurrogate (n : Nat) : Bool := 0xD800 ≤ n && n < 0xDC00

def isLowSurrogate (n : Nat) : Bool := 0xDC00 ≤ n && n < 0xE000

-- A code point as a character; half of a surrogate pair is none and is replaced.
def charOf (n : Nat) : Char :=
  if isHighSurrogate n || isLowSurrogate n then Char.ofNat 0xFFFD else Char.ofNat n

def simpleEscape? (c : Char) : Option Char :=
  match c with
  | '"' => some '"'
  | '\\' => some '\\'
  | '/' => some '/'
  | 'b' => some (Char.ofNat 8)
  | 'f' => some (Char.ofNat 12)
  | 'n' => some '\n'
  | 'r' => some '\r'
  | 't' => some '\t'
  | _ => none

theorem length_le_of_drop {k : Nat} {s t : List Char} (h : s.drop k = t) :
    t.length ≤ s.length :=
  h ▸ (List.drop_sublist k s).length_le

-- The characters of a string up to its closing quote. `start` stands at the opening quote.
-- What has been read is kept in `done`, last character first.
def stringBody (start : List Char) (done : List Char) (s : List Char) :
    Except Failure (String × { r : List Char // r.length ≤ s.length }) :=
  match s with
  | [] => .error ⟨.unterminatedString, start⟩
  | '"' :: r =>
    .ok (String.ofList done.reverse, ⟨r, by simp⟩)
  | ['\\'] => .error ⟨.unterminatedString, start⟩
  | '\\' :: 'u' :: r =>
    match hexFour? r with
    | none => .error ⟨.invalidUnicodeEscape, 'u' :: r⟩
    | some n =>
      match isHighSurrogate n, ht : r.drop 4 with
      | true, '\\' :: 'u' :: t =>
        have ht := length_le_of_drop ht
        if 4 < t.length then
          match hexFour? t with
          | none => .error ⟨.invalidUnicodeEscape, 'u' :: t⟩
          | some m =>
            if isLowSurrogate m then do
              let c := Char.ofNat ((n - 0xD800) * 0x400 + (m - 0xDC00) + 0x10000)
              let (x, ⟨q, hq⟩) ← stringBody start (c :: done) (t.drop 4)
              .ok (x, ⟨q, by
                simp only [List.length_drop, List.length_cons] at *
                omega⟩)
            else do
              let (x, ⟨q, hq⟩) ← stringBody start (charOf n :: done) ('\\' :: 'u' :: t)
              .ok (x, ⟨q, by
                simp only [List.length_cons] at *
                omega⟩)
        else do
          let (x, ⟨q, hq⟩) ← stringBody start (charOf n :: done) ('\\' :: 'u' :: t)
          .ok (x, ⟨q, by
            simp only [List.length_cons] at *
            omega⟩)
      | _, t => do
        have ht := length_le_of_drop ht
        let (x, ⟨q, hq⟩) ← stringBody start (charOf n :: done) t
        .ok (x, ⟨q, by
          simp only [List.length_cons] at *
          omega⟩)
  | '\\' :: c :: r =>
    match simpleEscape? c with
    | none => .error ⟨.invalidEscape, '\\' :: c :: r⟩
    | some d => do
      let (x, ⟨q, hq⟩) ← stringBody start (d :: done) r
      .ok (x, ⟨q, by simp only [List.length_cons]; omega⟩)
  | c :: r =>
    if c.toNat < 0x20 then .error ⟨.controlCharacter, c :: r⟩
    else do
      let (x, ⟨q, hq⟩) ← stringBody start (c :: done) r
      .ok (x, ⟨q, by simp only [List.length_cons]; omega⟩)
  termination_by s.length
  decreasing_by
    all_goals simp only [List.length_cons, List.length_drop] at *
    all_goals omega

-- A digit, and what follows the digits.
def skipDigits (s : List Char) : List Char :=
  s.dropWhile Char.isDigit

theorem skipDigits_length (s : List Char) : (skipDigits s).length ≤ s.length :=
  (List.dropWhile_sublist Char.isDigit).length_le

def digitValues (s : List Char) : List Nat :=
  (s.takeWhile Char.isDigit).map fun c => c.toNat - '0'.toNat

-- A point belongs to a number only with a digit behind it.
def splitFraction (s : List Char) : List Nat × List Char :=
  match s with
  | '.' :: r => if (digitValues r).isEmpty then ([], s) else (digitValues r, skipDigits r)
  | _ => ([], s)

theorem splitFraction_length (s : List Char) : (splitFraction s).2.length ≤ s.length := by
  unfold splitFraction
  split
  · rename_i r
    have := skipDigits_length r
    split
    · exact Nat.le_refl _
    · simp only [List.length_cons]
      omega
  · exact Nat.le_refl _

def fraction (s : List Char) : List Nat × { r : List Char // r.length ≤ s.length } :=
  ((splitFraction s).1, ⟨(splitFraction s).2, splitFraction_length s⟩)

theorem afterSign_length (c : Char) (r : List Char) :
    (skipDigits (Literal.takeSign r).2).length ≤ (c :: r).length := by
  have hdigits := skipDigits_length (Literal.takeSign r).2
  have hsign := Literal.takeSign_length r
  simp only [List.length_cons]
  omega

-- An exponent mark belongs to a number only with digits behind it.
def exponent? (s : List Char) : Option (Int × { r : List Char // r.length ≤ s.length }) :=
  match s with
  | [] => none
  | c :: r =>
    if c = 'e' ∨ c = 'E' then
      let negative := (Literal.takeSign r).1
      let t := (Literal.takeSign r).2
      let ds := digitValues t
      if ds.isEmpty then none
      else some (if negative then -(value ds : Int) else value ds,
        ⟨skipDigits t, afterSign_length c r⟩)
    else none

-- A number, after its sign if it has one.
def unsigned (negative : Bool) (start : List Char) (s : List Char) : Step Json s :=
  match s with
  | [] => .error ⟨.expectedValue, start⟩
  | c :: r =>
    if c.isDigit then
      let ds := if c = '0' then [0] else digitValues (c :: r)
      let t := if c = '0' then r else skipDigits r
      have ht : t.length ≤ r.length := by
        have := skipDigits_length r
        simp only [t]
        split <;> omega
      let (fs, ⟨u, hu⟩) := fraction t
      match exponent? u with
      | some (e, ⟨v, hv⟩) =>
        .ok (.real (Numeral.ofLiteral ⟨negative, value (ds ++ fs), e - fs.length⟩),
          ⟨v, by simp only [List.length_cons]; omega⟩)
      | none =>
        if !fs.isEmpty then
          .ok (.real (Numeral.ofLiteral ⟨negative, value (ds ++ fs), -fs.length⟩),
            ⟨u, by simp only [List.length_cons]; omega⟩)
        else if digitLimit < ds.length then
          .error ⟨.longInteger ds.length, start⟩
        else
          .ok (.int (if negative then -(value ds : Int) else value ds),
            ⟨u, by simp only [List.length_cons]; omega⟩)
    else .error ⟨.expectedValue, start⟩

mutual

-- A value without space in front.
def value (s : List Char) : Step Json s :=
  match s with
  | '"' :: r => do
    let (x, ⟨t, ht⟩) ← stringBody s [] r
    .ok (.text x, ⟨t, by simp only [List.length_cons]; omega⟩)
  | '[' :: r => do
    have hr := skipSpace_length r
    match h : skipSpace r with
    | ']' :: t =>
      .ok (.list [], ⟨t, by rw [h] at hr; simp only [List.length_cons] at *; omega⟩)
    | _ =>
      let (xs, ⟨t, ht⟩) ← items (skipSpace r)
      .ok (.list xs, ⟨t, by simp only [List.length_cons]; omega⟩)
  | '{' :: r => do
    have hr := skipSpace_length r
    match h : skipSpace r with
    | '}' :: t =>
      .ok (.object [], ⟨t, by rw [h] at hr; simp only [List.length_cons] at *; omega⟩)
    | _ =>
      let (ms, ⟨t, ht⟩) ← members [] (skipSpace r)
      .ok (.object ms, ⟨t, by simp only [List.length_cons]; omega⟩)
  | 'n' :: 'u' :: 'l' :: 'l' :: r =>
    .ok (.null, ⟨r, by simp only [List.length_cons]; omega⟩)
  | 't' :: 'r' :: 'u' :: 'e' :: r =>
    .ok (.bool true, ⟨r, by simp only [List.length_cons]; omega⟩)
  | 'f' :: 'a' :: 'l' :: 's' :: 'e' :: r =>
    .ok (.bool false, ⟨r, by simp only [List.length_cons]; omega⟩)
  | 'N' :: 'a' :: 'N' :: r =>
    .ok (.real (0.0 / 0.0), ⟨r, by simp only [List.length_cons]; omega⟩)
  | 'I' :: 'n' :: 'f' :: 'i' :: 'n' :: 'i' :: 't' :: 'y' :: r =>
    .ok (.real (1.0 / 0.0), ⟨r, by simp only [List.length_cons]; omega⟩)
  | '-' :: 'I' :: 'n' :: 'f' :: 'i' :: 'n' :: 'i' :: 't' :: 'y' :: r =>
    .ok (.real (-1.0 / 0.0), ⟨r, by simp only [List.length_cons]; omega⟩)
  | '-' :: r => do
    let (x, ⟨t, ht⟩) ← unsigned true s r
    .ok (x, ⟨t, by simp only [List.length_cons]; omega⟩)
  | r => unsigned false r r
  termination_by (s.length, 0)

-- Values with commas between them, up to the closing bracket.
def items (s : List Char) : Step (List Json) s := do
  let (x, ⟨t, ht⟩) ← value s
  have hs := skipSpace_length t
  match h : skipSpace t with
  | ']' :: r =>
    have hs : r.length < t.length := by rw [h] at hs; exact hs
    .ok ([x], ⟨r, by omega⟩)
  | ',' :: r =>
    have hs : r.length < t.length := by rw [h] at hs; exact hs
    have hr := skipSpace_length r
    let (xs, ⟨u, hu⟩) ← items (skipSpace r)
    .ok (x :: xs, ⟨u, by omega⟩)
  | r => .error ⟨.expectedComma, r⟩
  termination_by (s.length, 1)

-- Names with values, up to the closing brace. Of members of one name the last one counts.
def members (done : List (String × Json)) (s : List Char) :
    Step (List (String × Json)) s :=
  match s with
  | '"' :: q => do
    let (name, ⟨t, ht⟩) ← stringBody s [] q
    have h1 := skipSpace_length t
    match hc : skipSpace t with
    | ':' :: r =>
      have h1 : r.length < t.length := by rw [hc] at h1; exact h1
      have h2 := skipSpace_length r
      let (x, ⟨u, hu⟩) ← value (skipSpace r)
      have h3 := skipSpace_length u
      let done := put done name x
      match hd : skipSpace u with
      | '}' :: v =>
        have h3 : v.length < u.length := by rw [hd] at h3; exact h3
        .ok (done, ⟨v, by simp only [List.length_cons]; omega⟩)
      | ',' :: v =>
        have h3 : v.length < u.length := by rw [hd] at h3; exact h3
        have h4 := skipSpace_length v
        let (ms, ⟨w, hw⟩) ← members done (skipSpace v)
        .ok (ms, ⟨w, by simp only [List.length_cons]; omega⟩)
      | v => .error ⟨.expectedComma, v⟩
    | r => .error ⟨.expectedColon, r⟩
  | r => .error ⟨.expectedName, r⟩
  termination_by (s.length, 1)

end

-- One value with nothing but space around it.
def whole (s : List Char) : Except Failure Json := do
  let (x, ⟨t, _⟩) ← value (skipSpace s)
  match skipSpace t with
  | [] => .ok x
  | r => .error ⟨.extraData, r⟩

-- Where an error is: lines end with a line feed.
def locate (text : List Char) (f : Failure) : ParseError :=
  let offset := text.length - f.front.length
  let before := text.take offset
  let column := (before.reverse.takeWhile (· != '\n')).length + 1
  ⟨f.cause, before.count '\n' + 1, column, offset⟩

end Parser

def parse (text : String) : Except ParseError Json :=
  let cs := text.toList
  if cs.head? = some (Char.ofNat 0xFEFF) then
    .error ⟨.byteOrderMark, 1, 1, 0⟩
  else
    match Parser.whole cs with
    | .ok x => .ok x
    | .error f => .error (Parser.locate cs f)

end BarReplay.Json
