import BarReplay.Rule.Error

namespace BarReplay.Rule.Parser

open Decimal Indicator Text

variable {α : Type} [Numeral α]

-- A failure stands in front of the text that could not be read.
structure Failure where
  cause : ParseCause
  front : List Char

-- What is left after reading something from `s`: at least one character less.
abbrev Rest (s : List Char) := { r : List Char // r.length < s.length }

abbrev Step (β : Type) (s : List Char) := Except Failure (β × Rest s)

def skipBlank (s : List Char) : List Char :=
  s.dropWhile isBlank

theorem skipBlank_length (s : List Char) : (skipBlank s).length ≤ s.length :=
  (List.dropWhile_sublist isBlank).length_le

def isWordChar (c : Char) : Bool :=
  c.isAlphanum || c = '_'

-- A word at the front, empty if there is none, and what follows it.
def takeWord (s : List Char) : String × List Char :=
  (String.ofList (s.takeWhile isWordChar), s.dropWhile isWordChar)

-- The token at the front, for messages.
def found (s : List Char) : Found :=
  match s with
  | [] => .endOfInput
  | c :: _ => if isWordChar c then .token (takeWord s).1 else .token c.toString

def expect (c : Char) (s : List Char) : Except Failure (Rest s) :=
  have hs := skipBlank_length s
  match h : skipBlank s with
  | [] => .error ⟨.expectedChar c .endOfInput, []⟩
  | d :: r =>
    if d = c then .ok ⟨r, by rw [h] at hs; simp only [List.length_cons] at hs; omega⟩
    else .error ⟨.expectedChar c (found (d :: r)), d :: r⟩

def number (s : List Char) : Step α s :=
  match h : Literal.scan? (skipBlank s) with
  | none => .error ⟨.expectedNumber (found (skipBlank s)), skipBlank s⟩
  | some (l, r) =>
    let x : α := Numeral.ofLiteral l
    if Amount.isFinite x then
      .ok (x, ⟨r, Nat.lt_of_lt_of_le (Literal.scan?_length h) (skipBlank_length s)⟩)
    else
      .error ⟨.numberOutOfRange, skipBlank s⟩

-- A positive whole number, with digits of any script and no sign.
def integer (s : List Char) : Step Nat s :=
  match h : spanDigits (skipBlank s) with
  | ([], _) => .error ⟨.expectedInteger (found (skipBlank s)), skipBlank s⟩
  | (d :: ds, r) =>
    if digitLimit < (d :: ds).length then
      .error ⟨.longInteger (d :: ds).length, skipBlank s⟩
    else if value (d :: ds) < 1 then
      .error ⟨.zeroInteger, skipBlank s⟩
    else
      .ok (value (d :: ds), ⟨r, by
        have hs := skipBlank_length s
        have hd := spanDigits_length (skipBlank s)
        rw [h] at hd
        simp only [List.length_cons] at hd
        omega⟩)

-- One period in brackets.
def period (s : List Char) : Step Nat s := do
  let ⟨s1, _⟩ ← expect '(' s
  let (n, ⟨s2, _⟩) ← integer s1
  let ⟨s3, _⟩ ← expect ')' s2
  .ok (n, ⟨s3, by omega⟩)

def twoPeriods (s : List Char) : Step (Nat × Nat) s := do
  let ⟨s1, _⟩ ← expect '(' s
  let (m, ⟨s2, _⟩) ← integer s1
  let ⟨s3, _⟩ ← expect ',' s2
  let (n, ⟨s4, _⟩) ← integer s3
  let ⟨s5, _⟩ ← expect ')' s4
  .ok ((m, n), ⟨s5, by omega⟩)

def threePeriods (s : List Char) : Step (Nat × Nat × Nat) s := do
  let ⟨s1, _⟩ ← expect '(' s
  let (l, ⟨s2, _⟩) ← integer s1
  let ⟨s3, _⟩ ← expect ',' s2
  let (m, ⟨s4, _⟩) ← integer s3
  let ⟨s5, _⟩ ← expect ',' s4
  let (n, ⟨s6, _⟩) ← integer s5
  let ⟨s7, _⟩ ← expect ')' s6
  .ok ((l, m, n), ⟨s7, by omega⟩)

-- A period and a multiplier. A negative multiplier is reported right after the comma.
def periodAndMultiplier (s : List Char) : Step (Nat × α) s := do
  let ⟨s1, _⟩ ← expect '(' s
  let (n, ⟨s2, _⟩) ← integer s1
  let ⟨s3, _⟩ ← expect ',' s2
  let (m, ⟨s4, _⟩) ← number s3
  if m < 0 then
    .error ⟨.negativeMultiplier, s3⟩
  else
    let ⟨s5, _⟩ ← expect ')' s4
    .ok ((n, m), ⟨s5, by omega⟩)

-- What follows the word of an operand, which ended in front of `s`.
-- `start` is where the word began; a word of no operand is reported there.
def operandAfter (start : List Char) (w : Option OperandWord) (s : List Char) :
    Except Failure (Operand α × { r : List Char // r.length ≤ s.length }) := do
  match w with
  | some (.price f) => .ok (.price f, ⟨s, by omega⟩)
  | some (.windowed w) =>
    let (n, ⟨r, _⟩) ← period s
    .ok (.reading (.windowed w n) .value, ⟨r, by omega⟩)
  | some .obv => .ok (.reading .obv .value, ⟨s, by omega⟩)
  | some .vwap => .ok (.reading .vwap .value, ⟨s, by omega⟩)
  | some (.part .macd f) =>
    let ((a, b, c), ⟨r, _⟩) ← threePeriods s
    .ok (.reading (.macd a b c) f, ⟨r, by omega⟩)
  | some (.part .stochastic f) =>
    let ((a, b), ⟨r, _⟩) ← twoPeriods s
    .ok (.reading (.stochastic a b) f, ⟨r, by omega⟩)
  | some (.part .bollinger f) =>
    let ((n, m), ⟨r, _⟩) ← periodAndMultiplier s
    .ok (.reading (.bollinger n m) f, ⟨r, by omega⟩)
  | some (.part .pivot f) => .ok (.reading .pivot f, ⟨s, by omega⟩)
  | _ => .error ⟨.expectedIndicator (found start), start⟩

-- A word that is in a table is not empty, so something was read.
theorem takeWord_length_lt {s : List Char} (h : (takeWord s).1 ≠ "") :
    (takeWord s).2.length < s.length := by
  cases s with
  | nil => exact absurd rfl h
  | cons c r =>
    by_cases hc : isWordChar c
    · have := (List.dropWhile_sublist (l := r) isWordChar).length_le
      simp only [takeWord, List.dropWhile_cons, hc, if_true, List.length_cons]
      omega
    · exact absurd (by simp [takeWord, hc]) h

theorem ofText?_operand_ne {s : String} (h : (OperandWord.ofText? s).isSome) : s ≠ "" := by
  intro hs
  subst hs
  revert h
  decide

theorem ofText?_rule_ne {s : String} (h : (RuleWord.ofText? s).isSome) : s ≠ "" := by
  intro hs
  subst hs
  revert h
  decide

-- An operand: a number if a digit, a minus or a point is in front, otherwise a word.
def operand (s : List Char) : Step (Operand α) s :=
  let t := skipBlank s
  have ht : t.length ≤ s.length := skipBlank_length s
  let numeric :=
    match t with
    | [] => false
    | c :: _ => isFigure c || c = '-' || c = '.'
  if numeric then do
    let (x, ⟨r, _⟩) ← number t
    .ok (.constant x, ⟨r, by omega⟩)
  else
    let w := OperandWord.ofText? (takeWord t).1
    if hw : w.isSome then do
      have hr := takeWord_length_lt (ofText?_operand_ne hw)
      let (o, ⟨r, _⟩) ← operandAfter t w (takeWord t).2
      .ok (o, ⟨r, by omega⟩)
    else
      .error ⟨.expectedIndicator (found t), t⟩

mutual

-- A rule: its word decides the form of what is in the brackets.
def rule (s : List Char) : Step (Rule α) s :=
  let t := skipBlank s
  have ht : t.length ≤ s.length := skipBlank_length s
  match hw : RuleWord.ofText? (takeWord t).1 with
  | none => .error ⟨.expectedRule (found t), t⟩
  | some w => do
    have hr := takeWord_length_lt (ofText?_rule_ne (Option.isSome_of_eq_some hw))
    let ⟨s1, _⟩ ← expect '(' (takeWord t).2
    match w with
    | .comparison c =>
      let (left, ⟨s2, _⟩) ← operand s1
      let ⟨s3, _⟩ ← expect ',' s2
      let (right, ⟨s4, _⟩) ← operand s3
      let ⟨s5, _⟩ ← expect ')' s4
      .ok (.compare c left right, ⟨s5, by omega⟩)
    | .between =>
      let (o, ⟨s2, _⟩) ← operand s1
      let ⟨s3, _⟩ ← expect ',' s2
      let (lower, ⟨s4, _⟩) ← number s3
      let ⟨s5, _⟩ ← expect ',' s4
      let (upper, ⟨s6, _⟩) ← number s5
      let ⟨s7, _⟩ ← expect ')' s6
      .ok (.between o lower upper, ⟨s7, by omega⟩)
    | .not =>
      let (r, ⟨s2, _⟩) ← rule s1
      let ⟨s3, _⟩ ← expect ')' s2
      .ok (.not r, ⟨s3, by omega⟩)
    | .consecutive =>
      let (r, ⟨s2, _⟩) ← rule s1
      let ⟨s3, _⟩ ← expect ',' s2
      let (n, ⟨s4, _⟩) ← integer s3
      let ⟨s5, _⟩ ← expect ')' s4
      .ok (.consecutive r n, ⟨s5, by omega⟩)
    | .anyOf =>
      let (r, ⟨s2, _⟩) ← rule s1
      let ⟨s3, _⟩ ← expect ',' s2
      let (n, ⟨s4, _⟩) ← integer s3
      let ⟨s5, _⟩ ← expect ')' s4
      .ok (.anyOf r n, ⟨s5, by omega⟩)
    | .all =>
      let (r, ⟨s2, _⟩) ← rule s1
      let (rs, ⟨s3, _⟩) ← furtherRules s2
      if rs.isEmpty then .error ⟨.fewRules .all, s⟩
      else .ok (.all (r :: rs), ⟨s3, by omega⟩)
    | .any =>
      let (r, ⟨s2, _⟩) ← rule s1
      let (rs, ⟨s3, _⟩) ← furtherRules s2
      if rs.isEmpty then .error ⟨.fewRules .any, s⟩
      else .ok (.any (r :: rs), ⟨s3, by omega⟩)
  termination_by s.length

-- The rules after the first of a list, up to the closing bracket.
def furtherRules (s : List Char) : Step (List (Rule α)) s :=
  have ht : (skipBlank s).length ≤ s.length := skipBlank_length s
  match h : skipBlank s with
  | ')' :: r => .ok ([], ⟨r, by rw [h] at ht; simp only [List.length_cons] at ht; omega⟩)
  | _ => do
    let ⟨s1, _⟩ ← expect ',' s
    let (r, ⟨s2, _⟩) ← rule s1
    let (rs, ⟨s3, _⟩) ← furtherRules s2
    .ok (r :: rs, ⟨s3, by omega⟩)
  termination_by s.length

end

-- A rule and nothing after it but white space.
def whole (s : List Char) : Except Failure (Rule α) := do
  let (r, ⟨t, _⟩) ← rule s
  match skipBlank t with
  | [] => .ok r
  | t => .error ⟨.trailing (String.ofList t), t⟩

end Parser

-- Reads rule text. An error is placed at the byte where the unread rest begins.
def parse {α : Type} [Numeral α] (text : String) : Except ParseError (Rule α) :=
  match Parser.whole text.toList with
  | .ok r => .ok r
  | .error f =>
    .error ⟨f.cause, Text.utf8Length text.toList - Text.utf8Length f.front, none⟩

end BarReplay.Rule
