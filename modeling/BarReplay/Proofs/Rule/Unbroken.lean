import BarReplay.Proofs.Rule.Rules

namespace BarReplay.Rule

open Decimal Rule.Parser Text

namespace Grammar

-- A token is not empty and has no white space in it.
def Token.Unbroken (t : Token) : Prop :=
  t.chars ≠ [] ∧ ∀ c ∈ t.chars, isBlank c = false

theorem digits_unbroken {cs : List Char} {ds : List Nat} (h : Digits cs ds) :
    ∀ c ∈ cs, isBlank c = false := by
  intro c hc
  have hmem : decimalDigit? c ∈ ds.map some := h ▸ List.mem_map_of_mem hc
  obtain ⟨d, -, hd⟩ := List.mem_map.1 hmem
  exact isBlank_of_decimalDigit? hd.symm

theorem significand_unbroken {cs : List Char} {ds : List Nat} {places : Nat}
    (h : Literal.Significand cs ds places) : ∀ c ∈ cs, isBlank c = false := by
  have hpoint : isBlank '.' = false := by decide
  cases h with
  | whole h => exact digits_unbroken h
  | pointed h _ hf =>
    intro c hc
    simp only [List.mem_append, List.mem_cons] at hc
    rcases hc with hc | rfl | hc
    · exact digits_unbroken h c hc
    · exact hpoint
    · exact digits_unbroken hf c hc
  | fraction hf =>
    intro c hc
    rcases List.mem_cons.1 hc with rfl | hc
    · exact hpoint
    · exact digits_unbroken hf c hc

theorem exponent_unbroken {xs : List Char} {e : Int} (h : Literal.Exponent xs e) :
    ∀ c ∈ xs, isBlank c = false := by
  have hmark {mark : Char} (h : mark = 'e' ∨ mark = 'E') : isBlank mark = false := by
    rcases h with rfl | rfl <;> decide
  cases h with
  | absent => simp
  | positive hm hsign h =>
    intro c hc
    simp only [List.mem_cons, List.mem_append] at hc
    rcases hc with rfl | hc | hc
    · exact hmark hm
    · rcases hsign with rfl | rfl
      · simp at hc
      · rw [List.mem_singleton.1 hc]
        decide
    · exact digits_unbroken h c hc
  | negative hm h =>
    intro c hc
    simp only [List.mem_cons] at hc
    rcases hc with rfl | rfl | hc
    · exact hmark hm
    · decide
    · exact digits_unbroken h c hc

theorem integer_unbroken {ts : List Token} {n : Nat} (h : IntegerForm ts n) :
    ∀ t ∈ ts, t.Unbroken := by
  cases h with
  | @digits cs ds h hpos =>
    intro t ht
    rw [List.mem_singleton.1 ht]
    refine ⟨?_, digits_unbroken h⟩
    rintro rfl
    rw [h.nil_left] at hpos
    exact absurd hpos (by decide)

theorem number_unbroken {ts : List Token} {x : Float} (h : NumberForm ts x) :
    ∀ t ∈ ts, t.Unbroken := by
  cases h with
  | @written cs l h =>
    intro t ht
    rw [List.mem_singleton.1 ht]
    obtain ⟨c, rest, hcs, -⟩ := h.exists_cons
    refine ⟨by simp [Token.chars, hcs], ?_⟩
    cases h with
    | positive h hx =>
      intro c hc
      rcases List.mem_append.1 hc with hc | hc
      · exact significand_unbroken h c hc
      · exact exponent_unbroken hx c hc
    | negative h hx =>
      intro c hc
      simp only [Token.chars, List.mem_cons, List.mem_append] at hc
      rcases hc with rfl | hc | hc
      · decide
      · exact significand_unbroken h c hc
      · exact exponent_unbroken hx c hc

theorem mark_unbroken {c : Char} (h : isBlank c = false) : (Token.mark c).Unbroken :=
  ⟨by simp [Token.chars], by simpa [Token.chars] using h⟩

theorem word_unbroken {w : String} (hne : w ≠ "") (h : ∀ c ∈ w.toList, isWordChar c = true) :
    (Token.word w).Unbroken := by
  refine ⟨by simpa [Token.chars] using hne, fun c hc => ?_⟩
  by_cases hblank : isBlank c = true
  · have hword := isWordChar_of_isBlank hblank
    rw [h c hc] at hword
    cases hword
  · simpa using hblank

theorem marks_unbroken :
    (Token.mark '(').Unbroken ∧ (Token.mark ',').Unbroken ∧ (Token.mark ')').Unbroken :=
  ⟨mark_unbroken (by decide), mark_unbroken (by decide), mark_unbroken (by decide)⟩

theorem parameter_unbroken {w : OperandWord} {ts : List Token} {o : Operand Float}
    (h : ParameterForm w ts o) : ∀ t ∈ ts, t.Unbroken := by
  obtain ⟨hopen, hcomma, hclose⟩ := marks_unbroken
  cases h with
  | price | obv | vwap | pivot => simp
  | windowed h =>
    simp only [List.forall_mem_cons, List.forall_mem_append]
    exact ⟨hopen, integer_unbroken h, hclose, by simp⟩
  | macd hl hm hn =>
    simp only [List.forall_mem_cons, List.forall_mem_append]
    exact ⟨hopen, integer_unbroken hl, hcomma, integer_unbroken hm, hcomma, integer_unbroken hn,
      hclose, by simp⟩
  | stochastic hm hn =>
    simp only [List.forall_mem_cons, List.forall_mem_append]
    exact ⟨hopen, integer_unbroken hm, hcomma, integer_unbroken hn, hclose, by simp⟩
  | bollinger hn hx =>
    simp only [List.forall_mem_cons, List.forall_mem_append]
    exact ⟨hopen, integer_unbroken hn, hcomma, number_unbroken hx, hclose, by simp⟩

theorem operand_unbroken {ts : List Token} {o : Operand Float} (h : OperandForm ts o) :
    ∀ t ∈ ts, t.Unbroken := by
  cases h with
  | constant h => exact number_unbroken h
  | @word text _ _ _ hw h =>
    obtain ⟨c, cs, hcs, -⟩ := exists_cons_of_operand hw
    have hne : text ≠ "" := by
      rintro rfl
      cases hcs
    exact List.forall_mem_cons.2 ⟨word_unbroken hne (isWordChar_of_operand hw), parameter_unbroken h⟩

mutual

-- White space stands between the tokens of a rule, never inside one.
theorem rule_unbroken : ∀ {ts : List Token} {r : Rule Float}, RuleForm ts r → ∀ t ∈ ts, t.Unbroken
  | _, _, .call (w := w) h => by
    have hne : w.text ≠ "" := ofText?_rule_ne (by rw [ofText?_text]; rfl)
    simp only [List.forall_mem_cons]
    exact ⟨word_unbroken hne (isWordChar_of_rule w), marks_unbroken.1, argument_unbroken h⟩

theorem argument_unbroken : ∀ {w : RuleWord} {ts : List Token} {r : Rule Float},
    ArgumentForm w ts r → ∀ t ∈ ts, t.Unbroken
  | _, _, _, .compare hl hr => by
    simp only [List.forall_mem_cons, List.forall_mem_append]
    exact ⟨operand_unbroken hl, marks_unbroken.2.1, operand_unbroken hr, marks_unbroken.2.2, by simp⟩
  | _, _, _, .between ho hl hu => by
    simp only [List.forall_mem_cons, List.forall_mem_append]
    exact ⟨operand_unbroken ho, marks_unbroken.2.1, number_unbroken hl, marks_unbroken.2.1,
      number_unbroken hu, marks_unbroken.2.2, by simp⟩
  | _, _, _, .all h _ | _, _, _, .any h _ => by
    simp only [List.forall_mem_cons, List.forall_mem_append]
    exact ⟨rules_unbroken h, marks_unbroken.2.2, by simp⟩
  | _, _, _, .not h => by
    simp only [List.forall_mem_cons, List.forall_mem_append]
    exact ⟨rule_unbroken h, marks_unbroken.2.2, by simp⟩
  | _, _, _, .consecutive h hn | _, _, _, .anyOf h hn => by
    simp only [List.forall_mem_cons, List.forall_mem_append]
    exact ⟨rule_unbroken h, marks_unbroken.2.1, integer_unbroken hn, marks_unbroken.2.2, by simp⟩

theorem rules_unbroken : ∀ {ts : List Token} {rs : List (Rule Float)}, RulesForm ts rs →
    ∀ t ∈ ts, t.Unbroken
  | _, _, .one h => rule_unbroken h
  | _, _, .more h hrest => by
    simp only [List.forall_mem_cons, List.forall_mem_append]
    exact ⟨rule_unbroken h, marks_unbroken.2.1, rules_unbroken hrest⟩

end

-- What unbroken tokens are written in does not end with white space.
theorem Spaced.getLast_not_blank {ts : List Token} {s : List Char} (h : Spaced ts s)
    (hts : ∀ t ∈ ts, t.Unbroken) : ∀ c ∈ s.getLast?, isBlank c = false := by
  induction h with
  | nil => simp
  | @cons blanks t ts s hblank h ih =>
    obtain ⟨⟨hne, ht⟩, hts⟩ := List.forall_mem_cons.1 hts
    intro c hc
    rw [← List.append_assoc, List.getLast?_append, Option.mem_def, Option.or_eq_some_iff] at hc
    rcases hc with hc | ⟨-, hc⟩
    · exact ih hts c hc
    · rw [List.getLast?_append, List.getLast?_eq_some_getLast hne, Option.some_or] at hc
      exact ht c (Option.some.inj hc ▸ List.getLast_mem hne)

end Grammar

end BarReplay.Rule
