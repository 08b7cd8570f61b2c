import BarReplay.Proofs.Rule.Rules

namespace BarReplay.Rule

open Decimal Grammar Text

namespace Parser

theorem skipBlank_eq_nil_iff {s : List Char} :
    skipBlank s = [] ↔ ∀ c ∈ s, isBlank c = true := by
  constructor
  · intro h
    obtain ⟨blanks, hs, hblank⟩ := exists_blanks s
    rw [h, List.append_nil] at hs
    exact hs ▸ hblank
  · intro h
    rw [← List.append_nil s, skipBlank_blanks h]
    rfl

-- What is read as a whole text spells what is answered.
theorem spells_of_whole {s : List Char} {r : Rule Float} (h : whole s = .ok r) : Spells s r := by
  obtain ⟨⟨r', q⟩, hread, h⟩ := except_bind_eq_ok.1 h
  obtain ⟨ts, u, hform, -, hu, hs⟩ := (rule_reads s).sound r' q hread
  dsimp only at h
  split at h
  · rename_i hend
    cases h
    exact ⟨ts, u, q.1, hform, hu, skipBlank_eq_nil_iff.1 hend, hs⟩
  · cases h

-- What is spelled is read, unless one of its integers has too many digits.
theorem whole_of_spaced {s body blanks : List Char} {r : Rule Float} {ts : List Token}
    (hform : RuleForm ts r) (hbody : Spaced ts body) (hblank : ∀ c ∈ blanks, isBlank c = true)
    (hs : s = body ++ blanks) : whole s = .ok r ∨ ¬ Short ts ∧ TooLong (whole (α := Float) s) := by
  have hstops : Stops blanks := by
    have hnil : Stops [] := by simp [Stops]
    simpa using hnil.of_blanks hblank
  obtain ⟨q, hread, hq⟩ | ⟨hshort, hlong⟩ :=
    (rule_reads s).complete ts r body blanks hform hbody hs hstops
  · refine .inl (except_bind_eq_ok.2 ⟨_, hread, ?_⟩)
    dsimp only
    rw [hq, skipBlank_eq_nil_iff.2 hblank]
  · exact .inr ⟨hshort, hlong.bind _⟩

theorem longAt_of_whole {s : List Char} (h : TooLong (whole (α := Float) s)) :
    LongAt (RuleForm : List Token → Rule Float → Prop) s := by
  obtain hlong | ⟨⟨r, q⟩, -, f, n, hf, hn⟩ := h.of_bind
  · exact (rule_reads s).long hlong
  · dsimp only at hf
    split at hf
    · cases hf
    · cases hf
      cases hn

end Parser

open Rule.Parser

theorem parse_eq_ok_iff {text : String} {r : Rule Float} :
    parse text = .ok r ↔ whole text.toList = .ok r := by
  unfold parse
  cases whole (α := Float) text.toList <;> simp

-- A text is rejected where the reader of rules gives up.
theorem exists_failure_of_parse {text : String} {e : ParseError}
    (h : parse (α := Float) text = .error e) :
    ∃ f, whole (α := Float) text.toList = .error f ∧ e.cause = f.cause ∧
      e.position = utf8Length text.toList - utf8Length f.front := by
  unfold parse at h
  cases hread : whole (α := Float) text.toList with
  | ok r =>
    rw [hread] at h
    cases h
  | error f =>
    rw [hread] at h
    cases h
    exact ⟨f, rfl, rfl, rfl⟩

-- Where a text fails for the length of an integer, it has one that is too long.
theorem longAt_of_parse {text : String} {e : ParseError} {n : Nat}
    (h : parse (α := Float) text = .error e) (hn : e.cause = .longInteger n) :
    LongAt (RuleForm : List Token → Rule Float → Prop) text.toList := by
  obtain ⟨f, hread, hcause, -⟩ := exists_failure_of_parse h
  exact longAt_of_whole ⟨f, n, hread, hcause.symm.trans hn⟩

-- The parser reads the grammar, and nothing else. On a text that spells no rule it fails with an
-- error of its own, not for the length of an integer.
theorem parse_iff_spells (text : String)
    (hlimit : ∀ cs, IntegerLiteral (RuleForm : List Token → Rule Float → Prop) text.toList cs →
      cs.length ≤ digitLimit) :
    (∀ r : Rule Float, parse text = .ok r ↔ Spells text.toList r) ∧
      ((∀ r : Rule Float, ¬ Spells text.toList r) →
        ∃ e, parse (α := Float) text = .error e ∧ ∀ n, e.cause ≠ .longInteger n) := by
  have hshort : ¬ TooLong (whole (α := Float) text.toList) := by
    intro hlong
    obtain ⟨cs, hcs, hlong⟩ := longAt_of_whole hlong
    exact Nat.not_lt.2 (hlimit cs hcs) hlong
  constructor
  · intro r
    rw [parse_eq_ok_iff]
    constructor
    · exact spells_of_whole
    · rintro ⟨ts, body, blanks, hform, hbody, hblank, hs⟩
      exact (whole_of_spaced hform hbody hblank hs).resolve_right fun h => hshort h.2
  · intro hnone
    unfold parse
    cases hread : whole (α := Float) text.toList with
    | ok r => exact absurd (spells_of_whole hread) (hnone r)
    | error f => exact ⟨_, rfl, fun n hn => hshort ⟨f, n, hread, hn⟩⟩

-- A text that is not longer than an integer may be has no integer that is too long.
theorem length_le_of_integerLiteral {β : Type} {form : List Token → β → Prop} {s cs : List Char}
    (h : IntegerLiteral form s cs) : cs.length ≤ s.length := by
  obtain ⟨front, ds, rest, -, rfl, -⟩ := h
  simp only [List.length_append]
  omega

theorem parse_iff_spells_above :
    (∀ cs, IntegerLiteral (RuleForm : List Token → Rule Float → Prop) " ABOVE(close ,٢)\n".toList cs →
      cs.length ≤ digitLimit) ∧
    parse " ABOVE(close ,٢)\n" =
      .ok (.compare .above (.price .close) (.constant (2.0 : Float))) := by
  have hlimit (cs : List Char)
      (h : IntegerLiteral (RuleForm : List Token → Rule Float → Prop) " ABOVE(close ,٢)\n".toList cs) :
      cs.length ≤ digitLimit :=
    Nat.le_trans (length_le_of_integerLiteral h) (by decide)
  refine ⟨hlimit, ((parse_iff_spells _ hlimit).1 _).2 ?_⟩
  have hdigits : Digits ['٢'] [2] := rfl
  have hvalue : (Numeral.ofLiteral ⟨false, value [2], 0 - (0 : Nat)⟩ : Float) = 2.0 := by
    decide
  have hnumber : NumberForm [.number ['٢']] (2.0 : Float) := by
    rw [← hvalue]
    exact .written (.positive (.whole hdigits (by decide)) .absent) (by decide)
  have hspaced : Spaced [.word "ABOVE", .mark '(', .word "close", .mark ',', .number ['٢'], .mark ')']
      " ABOVE(close ,٢)".toList :=
    @Spaced.cons [' '] (.word "ABOVE") _ _ (by simp; decide) <|
      @Spaced.cons [] (.mark '(') _ _ (by simp) <|
      @Spaced.cons [] (.word "close") _ _ (by simp) <|
      @Spaced.cons [' '] (.mark ',') _ _ (by simp; decide) <|
      @Spaced.cons [] (.number ['٢']) _ _ (by simp) <|
      @Spaced.cons [] (.mark ')') _ _ (by simp) .nil
  exact ⟨_, _, ['\n'], .call (.compare (c := .above) operandForm_close (.constant hnumber)), hspaced,
    by simp; decide, by decide⟩

end BarReplay.Rule
