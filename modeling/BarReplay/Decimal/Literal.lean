import BarReplay.Decimal.Digits
import BarReplay.Text.Classes

namespace BarReplay.Decimal

open Text

-- Decimal digits of any script at the front of a text, and what follows them.
def spanDigits : List Char → List Nat × List Char
  | [] => ([], [])
  | c :: cs =>
    match decimalDigit? c with
    | none => ([], c :: cs)
    | some d => (d :: (spanDigits cs).1, (spanDigits cs).2)

theorem spanDigits_length (s : List Char) :
    (spanDigits s).1.length + (spanDigits s).2.length = s.length := by
  induction s with
  | nil => rfl
  | cons c cs ih =>
    unfold spanDigits
    split
    · simp
    · simp only [List.length_cons]
      omega

-- A decimal numeral: `± mantissa · 10^exponent`.
structure Literal where
  negative : Bool
  mantissa : Nat
  exponent : Int
  deriving DecidableEq

namespace Literal

-- Digits with an optional point, or a point with digits: the digits without the point, and
-- how many of them stand behind it.
def significand? (s : List Char) : Option (List Nat × Nat × List Char) :=
  let (ds, r) := spanDigits s
  match r with
  | '.' :: t =>
    let (fs, t) := spanDigits t
    if ds = [] ∧ fs = [] then none else some (ds ++ fs, fs.length, t)
  | _ => if ds = [] then none else some (ds, 0, r)

-- A sign and what follows it; no sign is a plus.
def takeSign : List Char → Bool × List Char
  | '+' :: r => (false, r)
  | '-' :: r => (true, r)
  | r => (false, r)

-- The digits after an exponent mark, with an optional sign.
def exponentDigits? (s : List Char) : Option (Int × List Char) :=
  let (negative, r) := takeSign s
  let (ds, r) := spanDigits r
  if ds = [] then none else some (if negative then -(value ds : Int) else value ds, r)

-- An exponent is there only with its digits; otherwise the mark is not part of the numeral.
def exponentPart (s : List Char) : Int × List Char :=
  match s with
  | 'e' :: r => (exponentDigits? r).getD (0, s)
  | 'E' :: r => (exponentDigits? r).getD (0, s)
  | _ => (0, s)

-- The longest numeral without a sign at the front of a text.
def scanUnsigned? (s : List Char) : Option (Literal × List Char) :=
  match significand? s with
  | none => none
  | some (ds, places, r) =>
    some (⟨false, value ds, (exponentPart r).1 - places⟩, (exponentPart r).2)

-- The same with an optional minus.
def scan? : List Char → Option (Literal × List Char)
  | '-' :: s => (scanUnsigned? s).map fun (l, r) => ({ l with negative := true }, r)
  | s => scanUnsigned? s

theorem significand?_length {s r : List Char} {ds : List Nat} {n : Nat}
    (h : significand? s = some (ds, n, r)) : r.length < s.length := by
  have hs := spanDigits_length s
  unfold significand? at h
  split at h
  rename_i whole rest hspan
  rw [hspan] at hs
  simp only at hs
  split at h
  · rename_i t
    have ht := spanDigits_length t
    split at h
    rename_i hfraction
    rw [hfraction] at ht
    split at h
    · cases h
    · cases h
      simp only [List.length_cons] at hs ht
      omega
  · split at h
    · cases h
    · rename_i hne
      cases h
      have := List.length_pos_iff.2 hne
      omega

theorem takeSign_length (s : List Char) : (takeSign s).2.length ≤ s.length := by
  unfold takeSign
  split <;> simp

theorem exponentDigits?_length {s r : List Char} {e : Int}
    (h : exponentDigits? s = some (e, r)) : r.length ≤ s.length := by
  have hs := takeSign_length s
  unfold exponentDigits? at h
  have ht := spanDigits_length (takeSign s).2
  split at h
  rename_i hsign
  rw [hsign] at hs ht
  split at h
  rename_i hspan
  rw [hspan] at ht
  split at h
  · cases h
  · cases h
    simp only at hs ht
    omega

theorem exponentPart_length (s : List Char) : (exponentPart s).2.length ≤ s.length := by
  unfold exponentPart
  split
  · cases h : exponentDigits? _ with
    | none => simp
    | some p =>
      have := exponentDigits?_length (r := p.2) (e := p.1) h
      simp only [Option.getD_some, List.length_cons]
      omega
  · cases h : exponentDigits? _ with
    | none => simp
    | some p =>
      have := exponentDigits?_length (r := p.2) (e := p.1) h
      simp only [Option.getD_some, List.length_cons]
      omega
  · simp

theorem scanUnsigned?_length {s r : List Char} {l : Literal}
    (h : scanUnsigned? s = some (l, r)) : r.length < s.length := by
  unfold scanUnsigned? at h
  split at h
  · cases h
  · rename_i t hsig
    cases h
    have := significand?_length hsig
    have := exponentPart_length t
    omega

-- A numeral takes at least one character.
theorem scan?_length {s r : List Char} {l : Literal}
    (h : scan? s = some (l, r)) : r.length < s.length := by
  unfold scan? at h
  split at h
  · rename_i t
    obtain ⟨p, hp, heq⟩ := Option.map_eq_some_iff.1 h
    cases heq
    have := scanUnsigned?_length (l := p.1) (r := p.2) hp
    simp only [List.length_cons]
    omega
  · exact scanUnsigned?_length h

end Literal

end BarReplay.Decimal
