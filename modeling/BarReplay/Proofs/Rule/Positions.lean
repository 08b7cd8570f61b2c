import BarReplay.Proofs.Rule.Failures
import BarReplay.Proofs.Rule.Unbroken
import BarReplay.Proofs.Text.Columns

namespace BarReplay.Rule

open Decimal Grammar Rule.Parser Text

namespace Parser

-- Tokens can be written with nothing between them.
theorem Short.exists_spelled {ts : List Token} (h : Short ts) : ∃ s, Spelled ts s := by
  induction ts with
  | nil => exact ⟨[], .nil⟩
  | cons t ts ih =>
    obtain ⟨hfirst, hrest⟩ := (Short.append : Short ([t] ++ ts) ↔ _).1 h
    obtain ⟨s, hs⟩ := ih hrest
    exact ⟨_, (Spelled.token hfirst).append hs⟩

variable {s : List Char} {f : Failure}

-- What stands in front of a failure is the beginning of a rule.
theorem Stuck.completable (h : Stuck (RuleForm : List Token → Rule Float → Prop) s f) :
    ∃ front, s = front ++ f.front ∧ ∃ rest r, whole (α := Float) (front ++ rest) = .ok r := by
  obtain ⟨ts, us, r, body, blanks, hform, hshort, hbody, hplaced, rfl⟩ := h
  refine ⟨body ++ blanks, by rw [List.append_assoc], ?_⟩
  have hall : Short (ts ++ us) := Short.append.2 ⟨hbody.short, hshort⟩
  by_cases hus : us = []
  · -- nothing is missing, and the white space trails
    rw [hus, List.append_nil] at hform hall
    refine ⟨[], r, (whole_of_spaced hform hbody.spaced hplaced.blank ?_).resolve_right ?_⟩
    · rw [List.append_nil]
    · exact fun hlong => hlong.1 hall
  · obtain ⟨rest, hrest⟩ := hshort.exists_spelled
    have hspelled := hbody.append (hrest.blanks hplaced.blank hus)
    have hwhole := whole_of_spaced (s := body ++ blanks ++ rest) hform hspelled.spaced
      (List.forall_mem_nil _) (by rw [List.append_nil, List.append_assoc])
    exact ⟨rest, r, hwhole.resolve_right fun hlong => hlong.1 hall⟩

-- No white space has been read in front of a check that is made late.
theorem Stuck.late_front (h : Stuck (RuleForm : List Token → Rule Float → Prop) s f)
    (hlate : f.cause.IsLate) {front : List Char} (hs : s = front ++ f.front) :
    ∀ c ∈ front.getLast?, isBlank c = false := by
  obtain ⟨ts, us, r, body, blanks, hform, -, hbody, hplaced, hbegin⟩ := h
  have hfront : front = body := by
    rw [hplaced.late hlate, List.nil_append, hs] at hbegin
    exact List.append_cancel_right hbegin
  rw [hfront]
  exact hbody.spaced.getLast_not_blank fun t ht => rule_unbroken hform t (List.mem_append_left us ht)

theorem Stuck.placed (h : Stuck (RuleForm : List Token → Rule Float → Prop) s f) :
    (¬ f.cause.IsLate → Bare f.front) ∧ f.cause.FoundIn (skipBlank f.front) :=
  let ⟨_, _, _, _, _, _, _, _, hplaced, _⟩ := h
  ⟨hplaced.early, hplaced.found⟩

theorem Bare.head_not_blank {t : List Char} (h : Bare t) : ∀ c ∈ t.head?, isBlank c = false := by
  intro c hc
  by_cases hblank : isBlank c = true
  · obtain ⟨cs, rfl⟩ := List.head?_eq_some_iff.1 hc
    have hskip : skipBlank cs = c :: cs := by simpa [Bare, skipBlank, hblank] using h
    have hlength := skipBlank_length cs
    rw [hskip, List.length_cons] at hlength
    omega
  · simpa using hblank

end Parser

-- The text in front of the position of an error, and what is left of the text behind it.
theorem ParseError.split {text : String} {e : ParseError} (h : parse (α := Float) text = .error e) :
    ∃ front f, e.cause = f.cause ∧ Stuck (RuleForm : List Token → Rule Float → Prop) text.toList f ∧
      text.toList = front ++ f.front ∧ e.position = utf8Length front ∧
      ∃ rest r, whole (α := Float) (front ++ rest) = .ok r := by
  obtain ⟨f, hf, hcause, hposition⟩ := exists_failure_of_parse h
  have hstuck := whole_stuck hf
  obtain ⟨front, hs, hrest⟩ := hstuck.completable
  refine ⟨front, f, hcause, hstuck, hs, ?_, hrest⟩
  rw [hposition, hs, utf8Length_append, Nat.add_sub_cancel]

-- A rejected text is reported at a place up to which it could have gone on to be a rule, and the
-- caret stands under that place.
theorem error_at_viable_prefix {text : String} {e : ParseError}
    (h : parse (α := Float) text = .error e) :
    ∃ front rest : String, text = front ++ rest ∧ e.position = front.utf8ByteSize ∧
      (∃ (suffix : String) (r : Rule Float), parse (front ++ suffix) = .ok r) ∧
      e.context text = "  " ++ text ++ "\n  " ++ String.ofList (List.replicate front.length ' ') ++
        "^\n  " ++ e.cause.message := by
  obtain ⟨front, f, -, -, hs, hposition, rest, r, hr⟩ := ParseError.split h
  have htext : text = String.ofList front ++ String.ofList f.front := by
    rw [← String.ofList_append, ← hs, String.ofList_toList]
  refine ⟨String.ofList front, String.ofList f.front, htext, ?_, ⟨String.ofList rest, r, ?_⟩, ?_⟩
  · rw [hposition, utf8Length_eq]
  · rw [parse_eq_ok_iff, ← String.ofList_append, String.toList_ofList]
    exact hr
  · have hcolumn : charsWithin e.position text.toList = front.length := by
      rw [hposition, hs, charsWithin_append]
    unfold ParseError.context
    rw [hcolumn, String.length_ofList]

theorem error_at_viable_prefix_wide :
    ∃ e, parse (α := Float) "ABOVE(close,\u3000é)" = .error e ∧
      ∃ front rest : String, "ABOVE(close,\u3000é)" = front ++ rest ∧
        e.position = front.utf8ByteSize ∧
        (∃ (suffix : String) (r : Rule Float), parse (front ++ suffix) = .ok r) ∧
        e.context "ABOVE(close,\u3000é)" = "  " ++ "ABOVE(close,\u3000é)" ++ "\n  " ++
          String.ofList (List.replicate front.length ' ') ++ "^\n  " ++ e.cause.message := by
  obtain ⟨e, he⟩ : ∃ e, parse (α := Float) "ABOVE(close,\u3000é)" = .error e :=
    except_eq_error_of_isOk (by decide +kernel)
  exact ⟨e, he, error_at_viable_prefix he⟩

-- An error stands where the token begins that it is about, or at the end of the text. Only the
-- checks that are made late are reported in front of the white space before their token, if there
-- is some.
theorem error_at_token {text : String} {e : ParseError} (h : parse (α := Float) text = .error e) :
    ∃ front rest : String, text = front ++ rest ∧ e.position = front.utf8ByteSize ∧
      e.cause.FoundIn (skipBlank rest.toList) ∧
      (¬ e.cause.IsLate → ∀ c ∈ rest.toList.head?, isBlank c = false) ∧
      (e.cause.IsLate → ∀ c ∈ front.toList.getLast?, isBlank c = false) := by
  obtain ⟨front, f, hcause, hstuck, hs, hposition, -⟩ := ParseError.split h
  obtain ⟨hearly, hfound⟩ := hstuck.placed
  refine ⟨String.ofList front, String.ofList f.front, ?_, ?_, ?_, ?_, ?_⟩
  · rw [← String.ofList_append, ← hs, String.ofList_toList]
  · rw [hposition, utf8Length_eq]
  · rw [String.toList_ofList, hcause]
    exact hfound
  · rw [String.toList_ofList, hcause]
    exact fun h => (hearly h).head_not_blank
  · rw [String.toList_ofList, hcause]
    exact fun h => hstuck.late_front h hs

theorem error_at_token_rate :
    ∃ e, parse (α := Float) "ABOVE(BOLLINGER_UPPER(20,\n-2), close)" = .error e ∧
      ∃ front rest : String, "ABOVE(BOLLINGER_UPPER(20,\n-2), close)" = front ++ rest ∧
        e.position = front.utf8ByteSize ∧
        e.cause.FoundIn (skipBlank rest.toList) ∧
        (¬ e.cause.IsLate → ∀ c ∈ rest.toList.head?, isBlank c = false) ∧
        (e.cause.IsLate → ∀ c ∈ front.toList.getLast?, isBlank c = false) := by
  obtain ⟨e, he⟩ : ∃ e, parse (α := Float) "ABOVE(BOLLINGER_UPPER(20,\n-2), close)" = .error e :=
    except_eq_error_of_isOk (by decide +kernel)
  exact ⟨e, he, error_at_token he⟩

-- Both of the late checks can report white space.
theorem error_at_blank :
    (∃ e, parse (α := Float) " AND(ABOVE(close, 1))" = .error e ∧
      ∃ front rest : String, " AND(ABOVE(close, 1))" = front ++ " " ++ rest ∧
        e.position = front.utf8ByteSize) ∧
    ∃ e, parse (α := Float) "ABOVE(BOLLINGER_UPPER(20, -2), close)" = .error e ∧
      ∃ front rest : String, "ABOVE(BOLLINGER_UPPER(20, -2), close)" = front ++ " " ++ rest ∧
        e.position = front.utf8ByteSize := by
  obtain ⟨e, he, hposition⟩ : ∃ e, parse (α := Float) " AND(ABOVE(close, 1))" = .error e ∧
      decide (e.position = 0) = true := except_exists_error (by decide +kernel)
  obtain ⟨e', he', hposition'⟩ : ∃ e,
      parse (α := Float) "ABOVE(BOLLINGER_UPPER(20, -2), close)" = .error e ∧
        decide (e.position = 25) = true := except_exists_error (by decide +kernel)
  exact ⟨⟨e, he, "", "AND(ABOVE(close, 1))", by decide, of_decide_eq_true hposition⟩,
    e', he', "ABOVE(BOLLINGER_UPPER(20,", "-2), close)", by decide, of_decide_eq_true hposition'⟩

end BarReplay.Rule
