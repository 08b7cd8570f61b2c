import BarReplay.Proofs.Rule.Words

namespace BarReplay.Rule.Parser

open Decimal Grammar Indicator Text

-- The words of operands: no two rows of the table share one, and none is like a number.

-- A row is found by its text, which is made of the characters of words and begins neither as a
-- number nor with a sign.
theorem table_rows : ∀ e ∈ OperandWord.table, OperandWord.ofText? e.1 = some e.2 ∧
    e.1.toList.all isWordChar = true ∧
    (e.1.toList.head?.any fun c => !isFigure c && c != '-' && c != '.') = true := by
  decide +kernel

theorem ofText?_of_mem {text : String} {w : OperandWord} (h : (text, w) ∈ OperandWord.table) :
    OperandWord.ofText? text = some w :=
  (table_rows _ h).1

theorem mem_of_ofText? {text : String} {w : OperandWord} (h : OperandWord.ofText? text = some w) :
    (text, w) ∈ OperandWord.table := by
  obtain ⟨l, l', htable, -⟩ := List.lookup_eq_some_iff.1 h
  rw [htable]
  simp

theorem isWordChar_of_operand {text : String} {w : OperandWord}
    (h : (text, w) ∈ OperandWord.table) : ∀ c ∈ text.toList, isWordChar c = true :=
  List.all_eq_true.1 (table_rows _ h).2.1

theorem exists_cons_of_operand {text : String} {w : OperandWord}
    (h : (text, w) ∈ OperandWord.table) :
    ∃ c cs, text.toList = c :: cs ∧ isFigure c = false ∧ c ≠ '-' ∧ c ≠ '.' := by
  obtain ⟨c, hc, htest⟩ := (Option.any_eq_true _ _).1 (table_rows _ h).2.2
  obtain ⟨cs, hcs⟩ := List.head?_eq_some_iff.1 hc
  simp only [Bool.and_eq_true, Bool.not_eq_true', bne_iff_ne] at htest
  exact ⟨c, cs, hcs, htest.1.1, htest.1.2, htest.2⟩

theorem solid_of_operand {text : String} {w : OperandWord} (h : (text, w) ∈ OperandWord.table) :
    Solid (.word text) := by
  obtain ⟨c, cs, hcs, -⟩ := exists_cons_of_operand h
  exact word_solid hcs (isWordChar_of_operand h c (hcs ▸ List.mem_cons_self))

-- Indicators of which a word names one field are the four with several fields.
theorem kind_of_part {text : String} {k : Kind} {f : Field}
    (h : (text, .part k f) ∈ OperandWord.table) :
    k = .macd ∨ k = .stochastic ∨ k = .bollinger ∨ k = .pivot := by
  have hall : ∀ entry ∈ OperandWord.table, ∀ k f, entry.2 = .part k f →
      k = .macd ∨ k = .stochastic ∨ k = .bollinger ∨ k = .pivot := by
    simp [OperandWord.table, PriceField.every, Windowed.every]
  exact hall _ h k f rfl

theorem parameterForm_inhabited {text : String} {w : OperandWord}
    (h : (text, w) ∈ OperandWord.table) : ∃ ts, ∃ o : Operand Float, ParameterForm w ts o := by
  obtain ⟨xs, x, hx, hsign⟩ := Language.multiplier.inhabited
  have hone := integerForm_one
  cases w with
  | price f => exact ⟨_, _, .price⟩
  | windowed w => exact ⟨_, _, .windowed hone⟩
  | obv => exact ⟨_, _, .obv⟩
  | vwap => exact ⟨_, _, .vwap⟩
  | part k f =>
    obtain rfl | rfl | rfl | rfl := kind_of_part h
    · exact ⟨_, _, .macd hone hone hone⟩
    · exact ⟨_, _, .stochastic hone hone⟩
    · exact ⟨_, _, .bollinger hone hx hsign⟩
    · exact ⟨_, _, .pivot⟩

def Language.parameters {text : String} {w : OperandWord} (h : (text, w) ∈ OperandWord.table) :
    Language (Operand Float) where
  form := ParameterForm w
  inhabited := parameterForm_inhabited h

-- A word that nothing follows.
theorem alone_reads {w : OperandWord} {o : Operand Float} {s : List Char}
    (hform : ParameterForm w [] o)
    (honly : ∀ {ts : List Token} {o' : Operand Float}, ParameterForm w ts o' → ts = [] ∧ o' = o)
    (hinhabited : ∃ ts, ∃ o : Operand Float, ParameterForm w ts o) :
    Reads (P := fun r : List Char => r.length ≤ s.length) (.ok (o, ⟨s, Nat.le_refl _⟩))
      ⟨ParameterForm w, hinhabited⟩ s := by
  refine Reads.pure.congr fun ts o' => ⟨?_, honly⟩
  rintro ⟨rfl, rfl⟩
  exact hform

theorem operandAfter_reads {text : String} {w : OperandWord} (h : (text, w) ∈ OperandWord.table)
    (start s : List Char) : Reads (operandAfter start (some w) s) (.parameters h) s := by
  cases w with
  | price f => exact alone_reads .price (by rintro _ _ ⟨⟩; exact ⟨rfl, rfl⟩) _
  | windowed w =>
    refine ((period_reads s).map (g := fun n => Operand.reading (.windowed w n) .value)
      fun r => Nat.le_of_lt).congr fun ts o => ⟨?_, ?_⟩
    · rintro ⟨n, h, rfl⟩
      obtain ⟨ns, rfl, hn⟩ := Language.period_form.1 h
      exact .windowed hn
    · rintro ⟨⟩
      rename_i hn
      exact ⟨_, Language.period_form.2 ⟨_, rfl, hn⟩, rfl⟩
  | obv => exact alone_reads .obv (by rintro _ _ ⟨⟩; exact ⟨rfl, rfl⟩) _
  | vwap => exact alone_reads .vwap (by rintro _ _ ⟨⟩; exact ⟨rfl, rfl⟩) _
  | part k f =>
    obtain rfl | rfl | rfl | rfl := kind_of_part h
    · refine ((threePeriods_reads s).map (g := fun n => Operand.reading (.macd n.1 n.2.1 n.2.2) f)
        fun r => Nat.le_of_lt).congr fun ts o => ⟨?_, ?_⟩
      · rintro ⟨⟨l, m, n⟩, h, rfl⟩
        obtain ⟨ls, ms, ns, rfl, hl, hm, hn⟩ := Language.threePeriods_form.1 h
        exact .macd hl hm hn
      · rintro ⟨⟩
        rename_i hl hm hn
        exact ⟨(_, _, _), Language.threePeriods_form.2 ⟨_, _, _, rfl, hl, hm, hn⟩, rfl⟩
    · refine ((twoPeriods_reads s).map (g := fun n => Operand.reading (.stochastic n.1 n.2) f)
        fun r => Nat.le_of_lt).congr fun ts o => ⟨?_, ?_⟩
      · rintro ⟨⟨m, n⟩, h, rfl⟩
        obtain ⟨ms, ns, rfl, hm, hn⟩ := Language.twoPeriods_form.1 h
        exact .stochastic hm hn
      · rintro ⟨⟩
        rename_i hm hn
        exact ⟨(_, _), Language.twoPeriods_form.2 ⟨_, _, rfl, hm, hn⟩, rfl⟩
    · refine ((periodAndMultiplier_reads s).map (g := fun n => Operand.reading (.bollinger n.1 n.2) f)
        fun r => Nat.le_of_lt).congr fun ts o => ⟨?_, ?_⟩
      · rintro ⟨⟨n, x⟩, h, rfl⟩
        obtain ⟨ns, xs, rfl, hn, hx, hsign⟩ := Language.periodAndMultiplier_form.1 h
        exact .bollinger hn hx hsign
      · rintro ⟨⟩
        rename_i hn hx hsign
        exact ⟨(_, _), Language.periodAndMultiplier_form.2 ⟨_, _, rfl, hn, hx, hsign⟩, rfl⟩
    · exact alone_reads .pivot (by rintro _ _ ⟨⟩; exact ⟨rfl, rfl⟩) _

variable {s t u r : List Char} {ts : List Token}

-- Whether an operand is read as a number.
def beginsNumber : List Char → Bool
  | [] => false
  | c :: _ => isFigure c || c = '-' || c = '.'

theorem numberForm_solid {x : Float} (h : NumberForm ts x) :
    ∃ cs c rest, ts = [.number cs] ∧ cs = c :: rest ∧
      (c = '-' ∨ c = '.' ∨ ∃ d, decimalDigit? c = some d) := by
  cases h with
  | @written cs l hwritten _ =>
    obtain ⟨c, rest, hcs, hc⟩ := hwritten.exists_cons
    exact ⟨cs, c, rest, rfl, hcs, hc⟩

theorem beginsNumber_of_number (ht : Bare t) {x : Float} (h : NumberForm ts x) (hu : Spaced ts u)
    (hs : t = u ++ r) : beginsNumber t = true := by
  obtain ⟨cs, c, rest, rfl, rfl, hc⟩ := numberForm_solid h
  obtain ⟨v, -, hfront⟩ := ht.front ⟨c, rest, rfl, Written.not_isBlank hc⟩ hu hs
  rw [hfront]
  obtain rfl | rfl | ⟨d, hd⟩ := hc
  · rfl
  · rfl
  · simp [Token.chars, beginsNumber, isFigure, isDecimalDigit, hd]

theorem parameterForm_mark {w : OperandWord} {o : Operand Float} (h : ParameterForm w ts o) :
    ∀ t ∈ ts.head?, ∃ c, t = .mark c ∧ Apart c := by
  have hopen : ∃ c, Token.mark '(' = .mark c ∧ Apart c := ⟨'(', rfl, by decide⟩
  cases h with
  | price | obv | vwap | pivot => simp
  | windowed | macd | stochastic | bollinger => rintro _ ⟨⟩; exact hopen

theorem front_of_word (ht : Bare t) {text : String} {w : OperandWord} {o : Operand Float}
    (hw : (text, w) ∈ OperandWord.table) (h : ParameterForm w ts o)
    (hu : Spaced (.word text :: ts) u) (hs : t = u ++ r) (hr : Stops r) :
    beginsNumber t = false ∧ (takeWord t).1 = text := by
  obtain ⟨v, hv, hfront⟩ := ht.front (solid_of_operand hw) hu hs
  obtain ⟨c, cs, hcs, hfigure, hminus, hpoint⟩ := exists_cons_of_operand hw
  rw [hfront]
  refine ⟨?_, takeWord_of_stops (isWordChar_of_operand hw) (.of_spaced hv (parameterForm_mark h) hr)⟩
  simp [Token.chars, hcs, beginsNumber, hfigure, hminus, hpoint]

def Language.operand : Language (Operand Float) where
  form := OperandForm
  inhabited :=
    let ⟨ts, x, h⟩ := Language.number.inhabited
    ⟨ts, .constant x, .constant h⟩

theorem operandForm_solid {o : Operand Float} (h : OperandForm ts o) :
    ∃ token us, ts = token :: us ∧ Solid token := by
  cases h with
  | constant h =>
    obtain ⟨cs, c, rest, rfl, rfl, hc⟩ := numberForm_solid h
    exact ⟨_, [], rfl, c, rest, rfl, Written.not_isBlank hc⟩
  | word hw h => exact ⟨_, _, rfl, solid_of_operand hw⟩

theorem operand_reads (s : List Char) : Reads (operand s) .operand s := by
  refine .skip ?_ fun ts o h => operandForm_solid h
  have ht := bare_skipBlank s
  unfold operand
  dsimp only
  change Reads (if beginsNumber (skipBlank s) = true then _ else _) _ _
  split
  · rename_i hnumber
    refine ((number_reads (skipBlank s)).map (g := Operand.constant)
      fun r hr => Nat.lt_of_lt_of_le hr (skipBlank_length s)).narrow ?_ ?_
    · rintro ts _ ⟨x, hx, rfl⟩
      exact .constant hx
    · intro ts o u r h hu hs hr
      cases h with
      | constant hx => exact ⟨_, hx, rfl⟩
      | word hw h => cases hnumber.symm.trans (front_of_word ht hw h hu hs hr).1
  · rename_i hnumber
    split
    · rename_i hw
      obtain ⟨w, hw⟩ := Option.isSome_iff_exists.1 hw
      have hmem := mem_of_ofText? hw
      have hne : (takeWord (skipBlank s)).1 ≠ "" := ofText?_operand_ne (hw ▸ rfl)
      have hlength := Nat.lt_of_lt_of_le (takeWord_length_lt hne) (skipBlank_length s)
      simp only [hw]
      refine (Reads.word ht hne ((operandAfter_reads hmem _ _).map (g := fun o => o)
        fun r hr => Nat.lt_of_le_of_lt hr hlength)).narrow ?_ ?_
      · rintro ts o ⟨us, rfl, o, ho, rfl⟩
        exact .word hmem ho
      · intro ts o u r h hu hs hr
        cases h with
        | constant hx => exact absurd (beginsNumber_of_number ht hx hu hs) hnumber
        | word hw' h =>
          have hsame := (front_of_word ht hw' h hu hs hr).2
          rw [hsame] at hw
          cases hw.symm.trans (ofText?_of_mem hw')
          exact ⟨_, hsame ▸ rfl, _, h, rfl⟩
    · rename_i hw
      refine .error (by intro n h; cases h) fun ts o u r h hu hs hr => ?_
      cases h with
      | constant hx => exact hnumber (beginsNumber_of_number ht hx hu hs)
      | word hw' h =>
        have hsame := (front_of_word ht hw' h hu hs hr).2
        rw [hsame, ofText?_of_mem hw'] at hw
        exact hw rfl

end BarReplay.Rule.Parser
