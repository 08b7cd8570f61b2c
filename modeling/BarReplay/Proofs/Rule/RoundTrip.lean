import BarReplay.Proofs.Decimal.Writing
import BarReplay.Proofs.Rule.Parsing

namespace BarReplay

open Decimal Indicator Rule.Parser Text

-- The periods of an indicator and the counts of a rule, which are written without a point.

def Indicator.Spec.integers {α : Type} : Spec α → List Nat
  | windowed _ n => [n]
  | macd l m n => [l, m, n]
  | stochastic m n => [m, n]
  | bollinger n _ => [n]
  | obv | vwap | pivot => []

def Operand.integers {α : Type} (o : Operand α) : List Nat :=
  o.specs.flatMap Spec.integers

namespace Rule

mutual

def integers {α : Type} : Rule α → List Nat
  | compare _ l r => l.integers ++ r.integers
  | between o _ _ => o.integers
  | all rs => integersOfList rs
  | any rs => integersOfList rs
  | not r => r.integers
  | consecutive r n => r.integers ++ [n]
  | anyOf r n => r.integers ++ [n]

def integersOfList {α : Type} : List (Rule α) → List Nat
  | [] => []
  | r :: rs => r.integers ++ integersOfList rs

end

-- Whole numbers that are not too long to be read.
def Readable (ns : List Nat) : Prop :=
  ∀ n ∈ ns, (digits n).length ≤ digitLimit

theorem readable_append {ms ns : List Nat} : Readable (ms ++ ns) ↔ Readable ms ∧ Readable ns :=
  List.forall_mem_append

namespace Grammar

-- Tokens that stand in a text, with no integer among them that is too long.
structure Spelled (ts : List Token) (s : List Char) : Prop where
  spaced : Spaced ts s
  short : Short ts

namespace Spelled

variable {ts us : List Token} {s t : List Char}

theorem nil : Spelled [] [] :=
  ⟨.nil, by simp [Short]⟩

theorem token {t : Token} (h : Short [t]) : Spelled [t] t.chars :=
  ⟨by simpa using @Spaced.cons [] t [] [] (by simp) .nil, h⟩

theorem word (w : String) : Spelled [.word w] w.toList :=
  token (by simp [Short])

theorem mark (c : Char) : Spelled [.mark c] [c] :=
  token (by simp [Short])

theorem append (h : Spelled ts s) (h' : Spelled us t) : Spelled (ts ++ us) (s ++ t) :=
  ⟨h.spaced.append h'.spaced, Short.append.2 ⟨h.short, h'.short⟩⟩

-- White space in front belongs to the first token.
theorem blanks {bs : List Char} (hblank : ∀ c ∈ bs, isBlank c = true) (hne : ts ≠ [])
    (h : Spelled ts s) : Spelled ts (bs ++ s) := by
  obtain ⟨hspaced, hshort⟩ := h
  cases hspaced with
  | nil => exact absurd rfl hne
  | @cons inner _ _ v hinner hv =>
    refine ⟨?_, hshort⟩
    rw [← List.append_assoc]
    exact .cons (fun c hc => (List.mem_append.1 hc).elim (hblank c) (hinner c)) hv

theorem bracketed (h : Spelled ts s) :
    Spelled (.mark '(' :: (ts ++ [.mark ')'])) ('(' :: (s ++ [')'])) :=
  (mark '(').append (h.append (mark ')'))

end Spelled

-- A comma and white space.
def Separates (sep : String) : Prop :=
  ∃ blanks, sep.toList = ',' :: blanks ∧ ∀ c ∈ blanks, isBlank c = true

theorem separates_comma : Separates "," :=
  ⟨[], rfl, by simp⟩

theorem separates_blank : Separates ", " :=
  ⟨[' '], rfl, by simp; decide⟩

theorem Spelled.intercalate {sep a b : String} {ss : List String} {ts us : List Token}
    (hsep : Separates sep) (h : Spelled ts a.toList)
    (h' : Spelled us (sep.intercalate (b :: ss)).toList) (hne : us ≠ []) :
    Spelled (ts ++ .mark ',' :: us) (sep.intercalate (a :: b :: ss)).toList := by
  obtain ⟨blanks, hcomma, hblank⟩ := hsep
  rw [String.intercalate_cons_cons, String.toList_append, String.toList_append, hcomma,
    List.append_assoc]
  exact h.append ((mark ',').append (h'.blanks hblank hne))

theorem Spelled.pair {sep a b : String} {ts us : List Token} (hsep : Separates sep)
    (h : Spelled ts a.toList) (h' : Spelled us b.toList) (hne : us ≠ []) :
    Spelled (ts ++ .mark ',' :: us) (sep.intercalate [a, b]).toList :=
  h.intercalate hsep (by rwa [String.intercalate_singleton]) hne

-- A text in which something of a form is spelled.
def Writes {β : Type} (form : List Token → β → Prop) (x : β) (s : String) : Prop :=
  ∃ ts, form ts x ∧ ts ≠ [] ∧ Spelled ts s.toList

theorem integer_writes {n : Nat} (hpos : 1 ≤ n) (hread : (digits n).length ≤ digitLimit) :
    Writes IntegerForm n (Decimal.text n) := by
  obtain ⟨ds, hds, -, hvalue⟩ := exists_digits n
  refine ⟨[.integer (digits n)], ?_, by simp, ?_⟩
  · subst hvalue
    exact .digits hds hpos
  · rw [Decimal.text, String.toList_ofList]
    exact .token (by simpa [Short] using hread)

theorem number_writes {x : Float} (hfinite : x.isFinite = true) :
    Writes NumberForm x (Decimal.shortest x) := by
  obtain ⟨l, hwritten, hvalue⟩ := exists_written_shortest hfinite
  have hform : NumberForm [.number (Decimal.shortest x).toList] (Numeral.ofLiteral l : Float) :=
    .written hwritten (by rw [hvalue]; exact hfinite)
  rw [hvalue] at hform
  exact ⟨_, hform, by simp, .token (by simp [Short])⟩

-- The row of the table for a field that belongs to its indicator.

theorem mem_table_price (f : PriceField) : (f.name, OperandWord.price f) ∈ OperandWord.table := by
  cases f <;> decide

theorem mem_table_windowed {w : Windowed} {f : Field} (h : f ∈ (Kind.windowed w).fields) :
    f = .value ∧ ((Kind.windowed w).word f, .windowed w) ∈ OperandWord.table := by
  obtain rfl := List.mem_singleton.1 h
  cases w <;> decide

theorem mem_table_part {k : Kind} {f : Field} (hpart : k ∈ [.macd, .stochastic, .bollinger, .pivot])
    (h : f ∈ k.fields) : (k.word f, .part k f) ∈ OperandWord.table := by
  have hall : ∀ k ∈ [Kind.macd, .stochastic, .bollinger, .pivot], ∀ f ∈ k.fields,
      (k.word f, .part k f) ∈ OperandWord.table := by decide
  exact hall k hpart f h

theorem applied_writes {word : String} {w : OperandWord} {o : Operand Float} {ts : List Token}
    {p : String} {ps : List String} (hword : (word, w) ∈ OperandWord.table)
    (hform : ParameterForm w (.mark '(' :: (ts ++ [.mark ')'])) o)
    (hs : Spelled ts (",".intercalate (p :: ps)).toList) :
    Writes OperandForm o (Spec.applied word (p :: ps)) := by
  refine ⟨_, .word hword hform, by simp, ?_⟩
  simp only [Spec.applied, List.isEmpty_cons, Bool.false_eq_true, if_false, String.toList_append,
    List.append_assoc]
  exact (Spelled.word word).append hs.bracketed

theorem applied_pair_writes {β : Type} {form : List Token → β → Prop} {word : String}
    {w : OperandWord} {o : Operand Float} {n : Nat} {x : β} {a b : String}
    (hword : (word, w) ∈ OperandWord.table)
    (hform : ∀ {ts us : List Token}, IntegerForm ts n → form us x →
      ParameterForm w (.mark '(' :: (ts ++ .mark ',' :: (us ++ [.mark ')']))) o)
    (ha : Writes IntegerForm n a) (hb : Writes form x b) :
    Writes OperandForm o (Spec.applied word [a, b]) := by
  obtain ⟨ts, hts, -, hs⟩ := ha
  obtain ⟨us, hus, hune, ht⟩ := hb
  refine applied_writes hword ?_ (hs.pair separates_comma ht hune)
  simpa using hform hts hus

theorem alone_writes {word : String} {w : OperandWord} {o : Operand Float}
    (hword : (word, w) ∈ OperandWord.table) (hform : ParameterForm w [] o) :
    Writes OperandForm o word :=
  ⟨_, .word hword hform, by simp, .word word⟩

theorem reading_writes {s : Spec Float} {f : Field} (hvalid : s.Valid) (hfield : f ∈ s.fields)
    (hread : Readable s.integers) :
    Writes OperandForm (.reading s f) (Operand.reading s f).text := by
  cases s with
  | windowed w n =>
    obtain ⟨rfl, hword⟩ := mem_table_windowed hfield
    obtain ⟨ts, hform, -, hs⟩ := integer_writes hvalid (hread n (by simp [Spec.integers]))
    exact applied_writes hword (.windowed hform) (by rwa [String.intercalate_singleton])
  | obv =>
    obtain rfl := List.mem_singleton.1 hfield
    exact alone_writes (by decide) .obv
  | vwap =>
    obtain rfl := List.mem_singleton.1 hfield
    exact alone_writes (by decide) .vwap
  | macd l m n =>
    obtain ⟨hl, hm, hn⟩ := hvalid
    obtain ⟨ts, hts, -, hs⟩ := integer_writes hl (hread l (by simp [Spec.integers]))
    obtain ⟨us, hus, hune, ht⟩ := integer_writes hm (hread m (by simp [Spec.integers]))
    obtain ⟨vs, hvs, hvne, hu⟩ := integer_writes hn (hread n (by simp [Spec.integers]))
    have hlast := ht.pair separates_comma hu hvne
    have hword := mem_table_part (k := .macd) (by decide) hfield
    refine applied_writes hword ?_
      (hs.intercalate separates_comma hlast (by simp))
    simpa using ParameterForm.macd hts hus hvs
  | stochastic m n =>
    obtain ⟨hm, hn⟩ := hvalid
    exact applied_pair_writes (mem_table_part (k := .stochastic) (by decide) hfield) .stochastic
      (integer_writes hm (hread m (by simp [Spec.integers])))
      (integer_writes hn (hread n (by simp [Spec.integers])))
  | bollinger n x =>
    obtain ⟨hn, hfinite, hsign⟩ := hvalid
    exact applied_pair_writes (mem_table_part (k := .bollinger) (by decide) hfield)
      (fun hts hus => .bollinger hts hus hsign)
      (integer_writes hn (hread n (by simp [Spec.integers]))) (number_writes hfinite)
  | pivot => exact alone_writes (mem_table_part (by decide) hfield) .pivot

theorem operand_writes {o : Operand Float} (hvalid : o.Valid) (hread : Readable o.integers) :
    Writes OperandForm o o.text := by
  cases o with
  | price f => exact alone_writes (mem_table_price f) .price
  | constant x =>
    obtain ⟨ts, hform, hne, hs⟩ := number_writes hvalid
    exact ⟨ts, .constant hform, hne, hs⟩
  | reading s f =>
    refine reading_writes hvalid.1 hvalid.2 fun n hn => hread n ?_
    simpa [Operand.integers, Operand.specs] using hn

theorem call_writes {w : RuleWord} {ts : List Token} {r : Rule Float} {arguments : List String}
    (hform : ArgumentForm w (ts ++ [.mark ')']) r)
    (hs : Spelled ts (", ".intercalate arguments).toList) :
    Writes RuleForm r (call w arguments) := by
  refine ⟨_, .call hform, by simp, ?_⟩
  simp only [call, String.toList_append, List.append_assoc]
  exact (Spelled.word w.text).append hs.bracketed

-- Two arguments with a comma between them.
theorem call_pair_writes {β γ : Type} {form : List Token → β → Prop} {form' : List Token → γ → Prop}
    {x : β} {y : γ} {a b : String} {w : RuleWord} {r : Rule Float}
    (hform : ∀ {ts us : List Token}, form ts x → form' us y →
      ArgumentForm w (ts ++ .mark ',' :: (us ++ [.mark ')'])) r)
    (ha : Writes form x a) (hb : Writes form' y b) : Writes RuleForm r (call w [a, b]) := by
  obtain ⟨ts, hts, -, hs⟩ := ha
  obtain ⟨us, hus, hune, ht⟩ := hb
  refine call_writes ?_ (hs.pair separates_blank ht hune)
  simpa using hform hts hus

mutual

theorem rule_writes (r : Rule Float) (hvalid : r.Valid) (hread : Readable r.integers) :
    Writes RuleForm r r.text := by
  cases r with
  | compare c l r =>
    rw [Valid] at hvalid
    rw [integers, readable_append] at hread
    rw [text]
    exact call_pair_writes .compare (operand_writes hvalid.1 hread.1)
      (operand_writes hvalid.2 hread.2)
  | between o l u =>
    rw [Valid] at hvalid
    rw [integers] at hread
    obtain ⟨ts, hts, -, hs⟩ := operand_writes hvalid.1 hread
    obtain ⟨us, hus, -, ht⟩ := number_writes hvalid.2.1
    obtain ⟨vs, hvs, hvne, hu⟩ := number_writes hvalid.2.2
    rw [text]
    have hlast := ht.pair separates_blank hu hvne
    refine call_writes ?_ (hs.intercalate separates_blank hlast (by simp))
    simpa using ArgumentForm.between hts hus hvs
  | all rs =>
    rw [Valid] at hvalid
    rw [integers] at hread
    obtain ⟨ts, hts, -, hs⟩ := rules_writes rs (by rintro rfl; simp at hvalid) hvalid.2 hread
    rw [text]
    exact call_writes (.all hts hvalid.1) hs
  | any rs =>
    rw [Valid] at hvalid
    rw [integers] at hread
    obtain ⟨ts, hts, -, hs⟩ := rules_writes rs (by rintro rfl; simp at hvalid) hvalid.2 hread
    rw [text]
    exact call_writes (.any hts hvalid.1) hs
  | not r =>
    rw [Valid] at hvalid
    rw [integers] at hread
    obtain ⟨ts, hts, -, hs⟩ := rule_writes r hvalid hread
    rw [text]
    exact call_writes (.not hts) (by rwa [String.intercalate_singleton])
  | consecutive r n =>
    rw [Valid] at hvalid
    rw [integers, readable_append] at hread
    rw [text]
    exact call_pair_writes .consecutive (rule_writes r hvalid.1 hread.1)
      (integer_writes hvalid.2 (hread.2 n (by simp)))
  | anyOf r n =>
    rw [Valid] at hvalid
    rw [integers, readable_append] at hread
    rw [text]
    exact call_pair_writes .anyOf (rule_writes r hvalid.1 hread.1)
      (integer_writes hvalid.2 (hread.2 n (by simp)))

theorem rules_writes (rs : List (Rule Float)) (hne : rs ≠ []) (hvalid : AllValid rs)
    (hread : Readable (integersOfList rs)) :
    Writes RulesForm rs (", ".intercalate (texts rs)) := by
  cases rs with
  | nil => exact absurd rfl hne
  | cons r rs =>
    rw [AllValid] at hvalid
    rw [integersOfList, readable_append] at hread
    obtain ⟨ts, hts, htne, hs⟩ := rule_writes r hvalid.1 hread.1
    cases rs with
    | nil =>
      simp only [texts, String.intercalate_singleton]
      exact ⟨ts, .one hts, htne, hs⟩
    | cons r' rs =>
      obtain ⟨us, hus, hune, ht⟩ := rules_writes (r' :: rs) (by simp) hvalid.2 hread.2
      exact ⟨_, .more hts hus, by simp, hs.intercalate separates_blank ht hune⟩

end

end Grammar

open Grammar

-- A rule is read back from its canonical text, down to the bits of its numbers.
theorem parse_text (r : Rule Float) (hvalid : r.Valid) (hread : Readable r.integers) :
    parse r.text = .ok r := by
  obtain ⟨ts, hform, -, hspaced, hshort⟩ := rule_writes r hvalid hread
  rw [parse_eq_ok_iff]
  have hblank : ∀ c ∈ ([] : List Char), isBlank c = true := by simp
  have hwhole := whole_of_spaced hform hspaced hblank (List.append_nil _).symm
  exact hwhole.resolve_right fun h => h.1 hshort

-- The multiplier comes back as a negative zero.
theorem parse_text_negative_zero :
    parse "ABOVE(BOLLINGER_UPPER(20,-0.0), 1e-07)" =
      .ok (.compare .above (.reading (.bollinger 20 (-0.0)) .upper) (.constant (1e-7 : Float))) := by
  obtain ⟨r, hr⟩ : ∃ r : Rule Float, r =
      .compare .above (.reading (.bollinger 20 (-0.0)) .upper) (.constant 1e-7) := ⟨_, rfl⟩
  have hvalid : r.Valid := by
    have hspec : (Spec.bollinger 20 (-0.0 : Float)).Valid :=
      ⟨by decide, by decide, by decide⟩
    have hfinite : (1e-7 : Float).isFinite = true := by decide
    rw [hr, Valid]
    exact ⟨⟨hspec, by decide⟩, hfinite⟩
  have hread : Readable r.integers := by
    rw [hr, integers]
    simp [Readable, Operand.integers, Operand.specs, Spec.integers]
    decide
  have htext : r.text = "ABOVE(BOLLINGER_UPPER(20,-0.0), 1e-07)" := by
    rw [hr]
    decide
  rw [← htext, ← hr]
  exact parse_text r hvalid hread

end Rule

end BarReplay
