import BarReplay.Decimal.Literal

namespace BarReplay.Decimal

open Text

-- Digits of any script, with their values.
def Digits (cs : List Char) (ds : List Nat) : Prop :=
  cs.map decimalDigit? = ds.map some

-- What follows digits that have been read to their end.
def NoDigit (s : List Char) : Prop :=
  ∀ c ∈ s.head?, decimalDigit? c = none

namespace Digits

theorem nil : Digits [] [] := rfl

theorem cons_iff {c : Char} {d : Nat} {cs : List Char} {ds : List Nat} :
    Digits (c :: cs) (d :: ds) ↔ decimalDigit? c = some d ∧ Digits cs ds := by
  simp [Digits]

theorem length_eq {cs : List Char} {ds : List Nat} (h : Digits cs ds) : cs.length = ds.length := by
  simpa using congrArg List.length h

theorem nil_left {ds : List Nat} (h : Digits [] ds) : ds = [] :=
  List.length_eq_zero_iff.1 h.length_eq.symm

theorem nil_right {cs : List Char} (h : Digits cs []) : cs = [] :=
  List.length_eq_zero_iff.1 h.length_eq

-- The first of several digits is one.
theorem exists_cons {cs : List Char} {ds : List Nat} (h : Digits cs ds) (hne : ds ≠ []) :
    ∃ c d rest, cs = c :: rest ∧ decimalDigit? c = some d := by
  cases ds with
  | nil => exact absurd rfl hne
  | cons d ds =>
    cases cs with
    | nil => exact absurd h.length_eq (by simp)
    | cons c cs => exact ⟨c, d, cs, rfl, (cons_iff.1 h).1⟩

end Digits

theorem spanDigits_append {cs r : List Char} {ds : List Nat} (h : Digits cs ds) (hr : NoDigit r) :
    spanDigits (cs ++ r) = (ds, r) := by
  induction cs generalizing ds with
  | nil =>
    cases h.nil_left
    cases r with
    | nil => rfl
    | cons c r => simp only [List.nil_append, spanDigits, hr c rfl]
  | cons c cs ih =>
    cases ds with
    | nil => exact absurd h.length_eq (by simp)
    | cons d ds =>
      obtain ⟨hd, hds⟩ := Digits.cons_iff.1 h
      simp only [List.cons_append, spanDigits, hd, ih hds]

theorem exists_of_spanDigits (s : List Char) :
    ∃ cs, s = cs ++ (spanDigits s).2 ∧ Digits cs (spanDigits s).1 ∧ NoDigit (spanDigits s).2 := by
  induction s with
  | nil => exact ⟨[], rfl, .nil, by simp [spanDigits, NoDigit]⟩
  | cons c s ih =>
    cases hc : decimalDigit? c with
    | none =>
      simp only [spanDigits, hc]
      exact ⟨[], rfl, .nil, by simpa [NoDigit] using hc⟩
    | some d =>
      obtain ⟨cs, hs, hcs, hr⟩ := ih
      simp only [spanDigits, hc]
      exact ⟨c :: cs, congrArg (c :: ·) hs, Digits.cons_iff.2 ⟨hc, hcs⟩, hr⟩

namespace Literal

-- Digits with an optional point and more digits, or a point with digits: the digits without the
-- point, and how many of them stand behind it.
inductive Significand : List Char → List Nat → Nat → Prop where
  | whole {cs : List Char} {ds : List Nat} (h : Digits cs ds) (hne : ds ≠ []) : Significand cs ds 0
  | pointed {cs fs : List Char} {ds es : List Nat} (h : Digits cs ds) (hne : ds ≠ [])
      (hf : Digits fs es) : Significand (cs ++ '.' :: fs) (ds ++ es) es.length
  | fraction {fs : List Char} {es : List Nat} (hf : Digits fs es) (hne : es ≠ []) :
      Significand ('.' :: fs) es es.length

-- Nothing, or an exponent mark with an optional sign and digits.
inductive Exponent : List Char → Int → Prop where
  | absent : Exponent [] 0
  | positive {mark : Char} {sign cs : List Char} {ds : List Nat} (hmark : mark = 'e' ∨ mark = 'E')
      (hsign : sign = [] ∨ sign = ['+']) (h : Digits cs ds) (hne : ds ≠ []) :
      Exponent (mark :: (sign ++ cs)) (value ds)
  | negative {mark : Char} {cs : List Char} {ds : List Nat} (hmark : mark = 'e' ∨ mark = 'E')
      (h : Digits cs ds) (hne : ds ≠ []) : Exponent (mark :: '-' :: cs) (-(value ds : Int))

-- The numerals of rule text, and what they denote.
inductive Written : List Char → Literal → Prop where
  | positive {cs xs : List Char} {ds : List Nat} {places : Nat} {e : Int}
      (h : Significand cs ds places) (hx : Exponent xs e) :
      Written (cs ++ xs) ⟨false, value ds, e - places⟩
  | negative {cs xs : List Char} {ds : List Nat} {places : Nat} {e : Int}
      (h : Significand cs ds places) (hx : Exponent xs e) :
      Written ('-' :: (cs ++ xs)) ⟨true, value ds, e - places⟩

-- What may follow a numeral without becoming part of it.
def Ends (s : List Char) : Prop :=
  ∀ c ∈ s.head?, decimalDigit? c = none ∧ c ≠ '.' ∧ c ≠ 'e' ∧ c ≠ 'E'

theorem significand?_append {cs r : List Char} {ds : List Nat} {places : Nat}
    (h : Significand cs ds places) (hr : NoDigit r) (hpoint : r.head? ≠ some '.') :
    significand? (cs ++ r) = some (ds, places, r) := by
  have hdot : ∀ t, NoDigit ('.' :: t) := fun t c hc => by
    cases Option.mem_some.1 hc
    decide
  cases h with
  | whole h hne =>
    simp only [significand?, spanDigits_append h hr]
    split
    · exact absurd rfl hpoint
    · rw [if_neg hne]
  | pointed h hne hf =>
    simp only [significand?, List.append_assoc, List.cons_append, spanDigits_append h (hdot _),
      spanDigits_append hf hr, hne, false_and, if_false]
  | @fraction fs es hf hne =>
    have hfront : spanDigits ('.' :: (fs ++ r)) = ([], '.' :: (fs ++ r)) :=
      spanDigits_append .nil (hdot _)
    simp only [significand?, List.cons_append, hfront, spanDigits_append hf hr, hne, and_false,
      if_false, List.nil_append]

theorem exists_of_significand? {s r : List Char} {ds : List Nat} {places : Nat}
    (h : significand? s = some (ds, places, r)) :
    ∃ cs, s = cs ++ r ∧ Significand cs ds places := by
  obtain ⟨cs, hs, hcs, -⟩ := exists_of_spanDigits s
  simp only [significand?] at h
  split at h
  · rename_i t ht
    obtain ⟨fs, hfs, hf, -⟩ := exists_of_spanDigits t
    split at h
    · cases h
    · rename_i hne
      cases h
      rw [ht, hfs] at hs
      by_cases hds : (spanDigits s).1 = []
      · rw [hds] at hcs hne ⊢
        cases hcs.nil_right
        exact ⟨'.' :: fs, hs, .fraction hf (by simpa using hne)⟩
      · exact ⟨cs ++ '.' :: fs, by simpa using hs, .pointed hcs hds hf⟩
  · split at h
    · cases h
    · rename_i hne
      cases h
      exact ⟨cs, hs, .whole hcs hne⟩

-- Digits are not taken for a sign.
theorem takeSign_digits {cs : List Char} {ds : List Nat} (h : Digits cs ds) (hne : ds ≠ [])
    (r : List Char) : takeSign (cs ++ r) = (false, cs ++ r) := by
  obtain ⟨c, d, rest, rfl, hc⟩ := h.exists_cons hne
  unfold takeSign
  split
  · rename_i heq
    cases heq
    cases hc.symm.trans (by decide : decimalDigit? '+' = none)
  · rename_i heq
    cases heq
    cases hc.symm.trans (by decide : decimalDigit? '-' = none)
  · rfl

theorem exponentDigits?_positive {sign cs r : List Char} {ds : List Nat}
    (hsign : sign = [] ∨ sign = ['+']) (h : Digits cs ds) (hne : ds ≠ []) (hr : NoDigit r) :
    exponentDigits? (sign ++ cs ++ r) = some ((value ds : Int), r) := by
  have htake : takeSign (sign ++ cs ++ r) = (false, cs ++ r) := by
    obtain rfl | rfl := hsign
    · exact takeSign_digits h hne r
    · rfl
  simp only [exponentDigits?, htake, spanDigits_append h hr, hne, if_false]
  rfl

theorem exponentDigits?_negative {cs r : List Char} {ds : List Nat} (h : Digits cs ds)
    (hne : ds ≠ []) (hr : NoDigit r) :
    exponentDigits? ('-' :: (cs ++ r)) = some (-(value ds : Int), r) := by
  simp [exponentDigits?, takeSign, spanDigits_append h hr, hne]

theorem exponentPart_mark {mark : Char} (hmark : mark = 'e' ∨ mark = 'E') (s : List Char) :
    exponentPart (mark :: s) = (exponentDigits? s).getD (0, mark :: s) := by
  obtain rfl | rfl := hmark <;> rfl

theorem exponentPart_append {xs r : List Char} {e : Int} (h : Exponent xs e) (hr : Ends r) :
    exponentPart (xs ++ r) = (e, r) := by
  have hdigit : NoDigit r := fun c hc => (hr c hc).1
  cases h with
  | absent =>
    rw [List.nil_append]
    unfold exponentPart
    split
    · exact absurd rfl (hr 'e' rfl).2.2.1
    · exact absurd rfl (hr 'E' rfl).2.2.2
    · rfl
  | positive hmark hsign h hne =>
    rw [List.cons_append, exponentPart_mark hmark, exponentDigits?_positive hsign h hne hdigit]
    rfl
  | negative hmark h hne =>
    rw [List.cons_append, List.cons_append, exponentPart_mark hmark,
      exponentDigits?_negative h hne hdigit]
    rfl

theorem exists_of_takeSign (s : List Char) :
    (∃ sign, (sign = [] ∨ sign = ['+']) ∧ takeSign s = (false, (takeSign s).2) ∧
      s = sign ++ (takeSign s).2) ∨
    (takeSign s = (true, (takeSign s).2) ∧ s = '-' :: (takeSign s).2) := by
  unfold takeSign
  split
  · exact .inl ⟨['+'], .inr rfl, rfl, rfl⟩
  · exact .inr ⟨rfl, rfl⟩
  · exact .inl ⟨[], .inl rfl, rfl, rfl⟩

theorem exists_of_exponentDigits? {mark : Char} (hmark : mark = 'e' ∨ mark = 'E')
    {s r : List Char} {e : Int} (h : exponentDigits? s = some (e, r)) :
    ∃ xs, mark :: s = xs ++ r ∧ Exponent xs e := by
  obtain ⟨cs, hs, hcs, -⟩ := exists_of_spanDigits (takeSign s).2
  obtain ⟨sign, hsign, htake, heq⟩ | ⟨htake, heq⟩ := exists_of_takeSign s
  · rw [exponentDigits?, htake] at h
    simp only at h
    split at h
    · cases h
    · rename_i hne
      cases h
      refine ⟨mark :: (sign ++ cs), ?_, .positive hmark hsign hcs hne⟩
      rw [List.cons_append, List.append_assoc, ← hs, ← heq]
  · rw [exponentDigits?, htake] at h
    simp only at h
    split at h
    · cases h
    · rename_i hne
      cases h
      refine ⟨mark :: '-' :: cs, ?_, .negative hmark hcs hne⟩
      rw [List.cons_append, List.cons_append, ← hs, ← heq]

theorem exists_of_exponentPart (s : List Char) :
    ∃ xs, s = xs ++ (exponentPart s).2 ∧ Exponent xs (exponentPart s).1 := by
  have hmarked {mark : Char} (hmark : mark = 'e' ∨ mark = 'E') (t : List Char) :
      ∃ xs, mark :: t = xs ++ (exponentPart (mark :: t)).2 ∧
        Exponent xs (exponentPart (mark :: t)).1 := by
    rw [exponentPart_mark hmark]
    cases h : exponentDigits? t with
    | none => exact ⟨[], rfl, .absent⟩
    | some x => exact exists_of_exponentDigits? hmark h
  by_cases he : ∃ t, s = 'e' :: t
  · obtain ⟨t, rfl⟩ := he
    exact hmarked (.inl rfl) t
  · by_cases hE : ∃ t, s = 'E' :: t
    · obtain ⟨t, rfl⟩ := hE
      exact hmarked (.inr rfl) t
    · have hnone : exponentPart s = (0, s) := by
        unfold exponentPart
        split
        · exact absurd ⟨_, rfl⟩ he
        · exact absurd ⟨_, rfl⟩ hE
        · rfl
      rw [hnone]
      exact ⟨[], rfl, .absent⟩

theorem scanUnsigned?_append {cs xs r : List Char} {ds : List Nat} {places : Nat} {e : Int}
    (h : Significand cs ds places) (hx : Exponent xs e) (hr : Ends r) :
    scanUnsigned? (cs ++ xs ++ r) = some (⟨false, value ds, e - places⟩, r) := by
  have hfollow : ∀ c ∈ (xs ++ r).head?, decimalDigit? c = none ∧ c ≠ '.' := by
    have hmark {mark : Char} (hm : mark = 'e' ∨ mark = 'E') :
        decimalDigit? mark = none ∧ mark ≠ '.' := by
      obtain rfl | rfl := hm <;> decide
    intro c hc
    cases hx with
    | absent => exact ⟨(hr c hc).1, (hr c hc).2.1⟩
    | positive hm => cases Option.mem_some.1 hc; exact hmark hm
    | negative hm => cases Option.mem_some.1 hc; exact hmark hm
  have hsig : significand? (cs ++ (xs ++ r)) = some (ds, places, xs ++ r) :=
    significand?_append h (fun c hc => (hfollow c hc).1) fun hc => (hfollow '.' hc).2 rfl
  rw [List.append_assoc, scanUnsigned?, hsig]
  simp only [exponentPart_append hx hr]

-- What a numeral begins with, besides a minus.
theorem Significand.exists_cons {cs : List Char} {ds : List Nat} {places : Nat}
    (h : Significand cs ds places) :
    ∃ c rest, cs = c :: rest ∧ (c = '.' ∨ ∃ d, decimalDigit? c = some d) := by
  cases h with
  | whole h hne =>
    obtain ⟨c, d, rest, rfl, hc⟩ := h.exists_cons hne
    exact ⟨c, rest, rfl, .inr ⟨d, hc⟩⟩
  | pointed h hne _ =>
    obtain ⟨c, d, rest, rfl, hc⟩ := h.exists_cons hne
    exact ⟨c, _, rfl, .inr ⟨d, hc⟩⟩
  | fraction => exact ⟨'.', _, rfl, .inl rfl⟩

theorem Written.exists_cons {cs : List Char} {l : Literal} (h : Written cs l) :
    ∃ c rest, cs = c :: rest ∧ (c = '-' ∨ c = '.' ∨ ∃ d, decimalDigit? c = some d) := by
  cases h with
  | positive h _ =>
    obtain ⟨c, rest, rfl, hc⟩ := h.exists_cons
    exact ⟨c, _, rfl, .inr hc⟩
  | negative => exact ⟨'-', _, rfl, .inl rfl⟩

theorem scan?_of_ne {c : Char} (h : c ≠ '-') (s : List Char) :
    scan? (c :: s) = scanUnsigned? (c :: s) := by
  unfold scan?
  split
  · rename_i heq
    cases heq
    exact absurd rfl h
  · rfl

-- A numeral is read to its end.
theorem scan?_append {cs r : List Char} {l : Literal} (h : Written cs l) (hr : Ends r) :
    scan? (cs ++ r) = some (l, r) := by
  cases h with
  | negative h hx =>
    simp only [scan?, List.cons_append, scanUnsigned?_append h hx hr, Option.map_some]
  | positive h hx =>
    have hread := scanUnsigned?_append h hx hr
    obtain ⟨c, rest, rfl, hc⟩ := h.exists_cons
    have hne : c ≠ '-' := by
      rintro rfl
      obtain hc | ⟨d, hc⟩ := hc
      · exact absurd hc (by decide)
      · cases hc.symm.trans (by decide : decimalDigit? '-' = none)
    rw [← hread]
    exact scan?_of_ne hne _

theorem exists_of_scanUnsigned? {s r : List Char} {l : Literal}
    (h : scanUnsigned? s = some (l, r)) :
    ∃ cs xs ds places e, s = cs ++ xs ++ r ∧ Significand cs ds places ∧ Exponent xs e ∧
      l = ⟨false, value ds, e - places⟩ := by
  unfold scanUnsigned? at h
  split at h
  · cases h
  · rename_i ds places t hsig
    cases h
    obtain ⟨cs, hcs, hform⟩ := exists_of_significand? hsig
    obtain ⟨xs, hxs, hexp⟩ := exists_of_exponentPart t
    refine ⟨cs, xs, ds, places, _, ?_, hform, hexp, rfl⟩
    rw [List.append_assoc, ← hxs, hcs]

-- What is read as a numeral is one.
theorem exists_of_scan? {s r : List Char} {l : Literal} (h : scan? s = some (l, r)) :
    ∃ cs, s = cs ++ r ∧ Written cs l := by
  unfold scan? at h
  split at h
  · obtain ⟨⟨m, t⟩, hm, heq⟩ := Option.map_eq_some_iff.1 h
    cases heq
    obtain ⟨cs, xs, ds, places, e, rfl, hform, hexp, rfl⟩ := exists_of_scanUnsigned? hm
    exact ⟨'-' :: (cs ++ xs), rfl, .negative hform hexp⟩
  · obtain ⟨cs, xs, ds, places, e, rfl, hform, hexp, rfl⟩ := exists_of_scanUnsigned? h
    exact ⟨cs ++ xs, rfl, .positive hform hexp⟩

end Literal

end BarReplay.Decimal
