import BarReplay.Proofs.Rule.RoundTrip

namespace BarReplay.Rule

open Decimal Grammar Indicator Rule.Parser Text

-- What each cause says of the text in which its token stands in front.
def ParseCause.FoundIn : ParseCause → List Char → Prop
  | .expectedChar c found, t => found = Parser.found t ∧ t.head? ≠ some c
  | .expectedNumber found, t => found = Parser.found t ∧ Literal.scan? t = none
  | .expectedInteger found, t => found = Parser.found t ∧ (spanDigits t).1 = []
  | .expectedIndicator found, t =>
    found = Parser.found t ∧ beginsNumber t = false ∧ OperandWord.ofText? (takeWord t).1 = none
  | .expectedRule found, t => found = Parser.found t ∧ RuleWord.ofText? (takeWord t).1 = none
  | .numberOutOfRange, t => ∃ l r, Literal.scan? t = some (l, r) ∧
      Amount.isFinite (Numeral.ofLiteral l : Float) = false
  | .zeroInteger, t => (spanDigits t).1 ≠ [] ∧ value (spanDigits t).1 = 0
  | .negativeMultiplier, t => ∃ l r, Literal.scan? t = some (l, r) ∧
      (Numeral.ofLiteral l : Float) < 0
  | .fewRules w, t => (takeWord t).1 = w.text
  | .trailing rest, t => rest = String.ofList t ∧ t ≠ []
  | .longInteger n, t => (spanDigits t).1.length = n ∧ digitLimit < n

-- Checks that are made after more has been read. Their failures stand in front of the white space
-- before the token that they are about.
def ParseCause.IsLate : ParseCause → Prop
  | .negativeMultiplier | .fewRules _ => True
  | _ => False

namespace Parser

-- A failure with white space between it and what has been read.
structure Failure.Placed (f : Failure) (blanks : List Char) : Prop where
  blank : ∀ c ∈ blanks, isBlank c = true
  late : f.cause.IsLate → blanks = []
  early : ¬ f.cause.IsLate → Bare f.front
  found : f.cause.FoundIn (skipBlank f.front)

-- A failure about the token in front of a text, behind all the white space before it.
structure Failure.Prompt (f : Failure) (s : List Char) : Prop where
  front : f.front = skipBlank s
  early : ¬ f.cause.IsLate
  found : f.cause.FoundIn f.front

variable {β γ δ : Type} {s u : List Char} {ts : List Token} {f : Failure}

-- What stands in front of a failure: tokens with which something of a form begins, none of them
-- too long, and white space.
def Stuck (form : List Token → β → Prop) (s : List Char) (f : Failure) : Prop :=
  ∃ ts us x body blanks, form (ts ++ us) x ∧ Short us ∧ Spelled ts body ∧ f.Placed blanks ∧
    s = body ++ (blanks ++ f.front)

theorem Stuck.extend {form : List Token → β → Prop} {form' : List Token → γ → Prop}
    (h : Stuck form s f) (hu : Spelled ts u)
    (hform : ∀ us x, form us x → ∃ vs y, Short vs ∧ form' (ts ++ us ++ vs) y) :
    Stuck form' (u ++ s) f := by
  obtain ⟨read, due, x, body, blanks, hx, hshort, hbody, hplaced, rfl⟩ := h
  obtain ⟨more, y, hmore, hy⟩ := hform _ x hx
  refine ⟨ts ++ read, due ++ more, y, u ++ body, blanks, ?_, Short.append.2 ⟨hshort, hmore⟩,
    hu.append hbody, hplaced, ?_⟩
  · simpa using hy
  · rw [List.append_assoc]

theorem Stuck.mono {form : List Token → β → Prop} {form' : List Token → γ → Prop}
    (h : Stuck form s f) (hform : ∀ us x, form us x → ∃ y, form' us y) : Stuck form' s f :=
  h.extend .nil fun us x hx =>
    let ⟨y, hy⟩ := hform us x hx
    ⟨[], y, by simp [Short], by simpa using hy⟩

-- Nothing of the form has been read.
theorem Stuck.first {form : List Token → β → Prop} (h : ∃ ts x, form ts x ∧ Short ts)
    (hf : f.Prompt s) : Stuck form s f := by
  obtain ⟨ts, x, hx, hshort⟩ := h
  obtain ⟨hfront, hearly, hfound⟩ := hf
  obtain ⟨blanks, hs, hblank⟩ := exists_blanks s
  have hbare : Bare f.front := hfront ▸ bare_skipBlank s
  refine ⟨[], ts, x, [], blanks, hx, hshort, .nil, ?_, ?_⟩
  · refine ⟨hblank, fun h => absurd h hearly, fun _ => hbare, ?_⟩
    rw [show skipBlank f.front = f.front from hbare]
    exact hfound
  · rw [List.nil_append, hfront, ← hs]

theorem Stuck.late {form : List Token → β → Prop} (h : ∃ ts x, form ts x ∧ Short ts)
    (hlate : f.cause.IsLate) (hfront : f.front = s)
    (hfound : f.cause.FoundIn (skipBlank f.front)) : Stuck form s f := by
  obtain ⟨ts, x, hx, hshort⟩ := h
  refine ⟨[], ts, x, [], [], hx, hshort, .nil, ⟨by simp, fun _ => rfl, fun h => absurd hlate h,
    hfound⟩, ?_⟩
  rw [List.nil_append, List.nil_append, hfront]

-- Something that is spelled without an integer that is too long.
def Language.Brief (L : Language β) : Prop :=
  ∃ ts x, L.form ts x ∧ Short ts

-- A step gives up where what it reads is due, or with one failure that is left to the steps
-- around it.
def Halts (aside : Failure → Prop) (p : Except Failure δ) (L : Language β) (s : List Char) : Prop :=
  ∀ f, p = .error f → aside f ∨ Stuck L.form s f

namespace Halts

variable {aside : Failure → Prop} {P Q : List Char → Prop} {L : Language β}

theorem ok {x : δ} : Halts aside (.ok x) L s := nofun

theorem mono {M : Language γ} {p : Except Failure δ} (hp : Halts aside p L s)
    (h : ∀ ts x, L.form ts x → ∃ y, M.form ts y) : Halts aside p M s :=
  fun f hf => (hp f hf).imp_right fun hstuck => hstuck.mono h

-- One step after another. If the second one gives up, the first one has read its part.
theorem bind {p : Except Failure (β × { r : List Char // P r })}
    {f : β × { r : List Char // P r } → Except Failure δ} {M : β → Language γ}
    (hread : Reads p L s) (hp : Halts aside p L s)
    (hf : ∀ x r, Halts aside (f (x, r)) (M x) r.1) (hbrief : ∀ x, (M x).Brief) :
    Halts aside (p >>= f) (L.bind M) s := by
  intro e he
  obtain he | ⟨⟨x, r⟩, hx, he⟩ := except_bind_eq_error.1 he
  · refine (hp e he).imp_right fun hstuck => hstuck.extend .nil fun us x hus => ?_
    obtain ⟨vs, y, hvs, hshort⟩ := hbrief x
    exact ⟨vs, y, hshort, us, vs, x, rfl, hus, hvs⟩
  · obtain ⟨ts, u, hts, hshort, hu, hs⟩ := hread.sound x r hx
    rw [hs]
    exact (hf x r e he).imp_right fun hstuck => hstuck.extend ⟨hu, hshort⟩ fun us y hus =>
      ⟨[], y, by simp [Short], ts, us, x, by simp, hts, hus⟩

end Halts

theorem expect_prompt {c : Char} (h : expect c s = .error f) : f.Prompt s := by
  unfold expect at h
  dsimp only at h
  split at h
  · rename_i hnil
    cases h
    exact ⟨hnil.symm, id, rfl, by simp⟩
  · rename_i d r hcons
    split at h
    · cases h
    · rename_i hd
      cases h
      exact ⟨hcons.symm, id, rfl, by simpa using hd⟩

namespace Halts

variable {aside : Failure → Prop} {P Q : List Char → Prop} {L : Language β}

-- A mark, and then what stands behind it.
theorem mark {c : Char} {f : Rest s → Except Failure δ} (hbrief : L.Brief)
    (hf : ∀ r, Halts aside (f r) L r.1) : Halts aside (expect c s >>= f) (.mark c L) s := by
  intro e he
  obtain ⟨ts, x, hts, hshort⟩ := hbrief
  obtain he | ⟨r, hr, he⟩ := except_bind_eq_error.1 he
  · exact .inr (.first ⟨_, x, ⟨ts, rfl, hts⟩, by simpa [Short] using hshort⟩ (expect_prompt he))
  · obtain ⟨blanks, hs, hblank⟩ := exists_blanks s
    have hmark : Spelled [.mark c] (blanks ++ [c]) := (Spelled.mark c).blanks hblank (by simp)
    rw [hs, expect_eq_ok_iff.1 hr, ← List.singleton_append, ← List.append_assoc]
    exact (hf r e he).imp_right fun hstuck => hstuck.extend hmark fun us y hus =>
      ⟨[], y, by simp [Short], us, by simp, hus⟩

theorem upTo {c : Char} {p : Except Failure (β × { r : List Char // P r })}
    {f : β × { r : List Char // P r } → Except Failure δ} {M : β → Language γ}
    (hread : Reads p L s) (hp : Halts aside p L s)
    (hf : ∀ x r, Halts aside (f (x, r)) (.mark c (M x)) r.1) (hbrief : ∀ x, (M x).Brief) :
    Halts aside (p >>= f) (.upTo c L M) s :=
  .bind hread hp hf fun x =>
    let ⟨ts, y, hts, hshort⟩ := hbrief x
    ⟨.mark c :: ts, y, ⟨ts, rfl, hts⟩, by simpa [Short] using hshort⟩

-- A word, and then what stands behind it.
theorem word {p : Except Failure δ} {t : List Char} (ht : skipBlank s = t)
    (hp : Halts aside p L (takeWord t).2) : Halts aside p (.word (takeWord t).1 L) s := by
  intro f hf
  obtain ⟨blanks, hs, hblank⟩ := exists_blanks s
  have hword : Spelled [.word (takeWord t).1] (blanks ++ (takeWord t).1.toList) :=
    (Spelled.word _).blanks hblank (by simp)
  rw [hs, ht, takeWord_append t, ← List.append_assoc, ← takeWord_append t]
  exact (hp f hf).imp_right fun hstuck => hstuck.extend hword fun us y hus =>
    ⟨[], y, by simp [Short], us, by simp, hus⟩

end Halts

end Parser

end BarReplay.Rule
