import BarReplay.Proofs.Decimal.Scanning
import BarReplay.Rule.Text

namespace BarReplay.Rule.Grammar

open Decimal Indicator Text

-- The tokens of rule text. Whole numbers that the grammar wants are told from other numerals by
-- where they stand.
inductive Token where
  | word (text : String)
  | mark (c : Char)
  | integer (cs : List Char)
  | number (cs : List Char)

def Token.chars : Token → List Char
  | word w => w.toList
  | mark c => [c]
  | integer cs | number cs => cs

-- Tokens with white space in front of any of them.
inductive Spaced : List Token → List Char → Prop where
  | nil : Spaced [] []
  | cons {blanks : List Char} {t : Token} {ts : List Token} {s : List Char}
      (hblank : ∀ c ∈ blanks, isBlank c = true) (h : Spaced ts s) :
      Spaced (t :: ts) (blanks ++ (t.chars ++ s))

variable {α : Type} [Numeral α]

-- Digits of any script that denote a positive number.
inductive IntegerForm : List Token → Nat → Prop where
  | digits {cs : List Char} {ds : List Nat} (h : Digits cs ds) (hpos : 1 ≤ value ds) :
      IntegerForm [.integer cs] (value ds)

-- A numeral that denotes a finite number.
inductive NumberForm : List Token → α → Prop where
  | written {cs : List Char} {l : Literal} (h : Literal.Written cs l)
      (hfinite : Amount.isFinite (Numeral.ofLiteral l : α) = true) :
      NumberForm [.number cs] (Numeral.ofLiteral l)

-- What follows the word of an operand.
inductive ParameterForm : OperandWord → List Token → Operand α → Prop where
  | price {f : PriceField} : ParameterForm (.price f) [] (.price f)
  | windowed {w : Windowed} {ts : List Token} {n : Nat} (h : IntegerForm ts n) :
      ParameterForm (.windowed w) (.mark '(' :: (ts ++ [.mark ')'])) (.reading (.windowed w n) .value)
  | obv : ParameterForm .obv [] (.reading .obv .value)
  | vwap : ParameterForm .vwap [] (.reading .vwap .value)
  | macd {f : Field} {ls ms ns : List Token} {l m n : Nat} (hl : IntegerForm ls l)
      (hm : IntegerForm ms m) (hn : IntegerForm ns n) :
      ParameterForm (.part .macd f)
        (.mark '(' :: (ls ++ .mark ',' :: (ms ++ .mark ',' :: (ns ++ [.mark ')']))))
        (.reading (.macd l m n) f)
  | stochastic {f : Field} {ms ns : List Token} {m n : Nat} (hm : IntegerForm ms m)
      (hn : IntegerForm ns n) :
      ParameterForm (.part .stochastic f) (.mark '(' :: (ms ++ .mark ',' :: (ns ++ [.mark ')'])))
        (.reading (.stochastic m n) f)
  | bollinger {f : Field} {ns xs : List Token} {n : Nat} {x : α} (hn : IntegerForm ns n)
      (hx : NumberForm xs x) (hsign : ¬ x < 0) :
      ParameterForm (.part .bollinger f) (.mark '(' :: (ns ++ .mark ',' :: (xs ++ [.mark ')'])))
        (.reading (.bollinger n x) f)
  | pivot {f : Field} : ParameterForm (.part .pivot f) [] (.reading .pivot f)

inductive OperandForm : List Token → Operand α → Prop where
  | constant {ts : List Token} {x : α} (h : NumberForm ts x) : OperandForm ts (.constant x)
  | word {text : String} {w : OperandWord} {ts : List Token} {o : Operand α}
      (hw : (text, w) ∈ OperandWord.table) (h : ParameterForm w ts o) :
      OperandForm (.word text :: ts) o

-- The words of operands are those that are documented.
example : OperandWord.table =
    [("open", .price .opening), ("high", .price .high), ("low", .price .low),
      ("close", .price .close), ("volume", .price .volume),
      ("SMA", .windowed .sma), ("EMA", .windowed .ema), ("WMA", .windowed .wma),
      ("RSI", .windowed .rsi), ("ROC", .windowed .roc), ("ATR", .windowed .atr),
      ("STDDEV", .windowed .stddev), ("OBV", .obv), ("VWAP", .vwap),
      ("MACD_LINE", .part .macd .line), ("MACD_SIGNAL", .part .macd .signal),
      ("MACD_HISTOGRAM", .part .macd .histogram),
      ("STOCHASTIC_K", .part .stochastic .k), ("STOCHASTIC_D", .part .stochastic .d),
      ("BOLLINGER_UPPER", .part .bollinger .upper),
      ("BOLLINGER_MIDDLE", .part .bollinger .middle),
      ("BOLLINGER_LOWER", .part .bollinger .lower),
      ("PIVOT", .part .pivot .pivot),
      ("PIVOT_R1", .part .pivot .r1), ("PIVOT_R2", .part .pivot .r2),
      ("PIVOT_R3", .part .pivot .r3), ("PIVOT_S1", .part .pivot .s1),
      ("PIVOT_S2", .part .pivot .s2), ("PIVOT_S3", .part .pivot .s3)] := rfl

mutual

inductive RuleForm : List Token → Rule α → Prop where
  | call {w : RuleWord} {ts : List Token} {r : Rule α} (h : ArgumentForm w ts r) :
      RuleForm (.word w.text :: .mark '(' :: ts) r

-- What follows the opening bracket behind the word of a rule.
inductive ArgumentForm : RuleWord → List Token → Rule α → Prop where
  | compare {c : Comparison} {ls rs : List Token} {l r : Operand α} (hl : OperandForm ls l)
      (hr : OperandForm rs r) :
      ArgumentForm (.comparison c) (ls ++ .mark ',' :: (rs ++ [.mark ')'])) (.compare c l r)
  | between {os ls us : List Token} {o : Operand α} {l u : α} (ho : OperandForm os o)
      (hl : NumberForm ls l) (hu : NumberForm us u) :
      ArgumentForm .between (os ++ .mark ',' :: (ls ++ .mark ',' :: (us ++ [.mark ')'])))
        (.between o l u)
  | all {ts : List Token} {rs : List (Rule α)} (h : RulesForm ts rs) (htwo : 2 ≤ rs.length) :
      ArgumentForm .all (ts ++ [.mark ')']) (.all rs)
  | any {ts : List Token} {rs : List (Rule α)} (h : RulesForm ts rs) (htwo : 2 ≤ rs.length) :
      ArgumentForm .any (ts ++ [.mark ')']) (.any rs)
  | not {ts : List Token} {r : Rule α} (h : RuleForm ts r) :
      ArgumentForm .not (ts ++ [.mark ')']) (.not r)
  | consecutive {ts ns : List Token} {r : Rule α} {n : Nat} (h : RuleForm ts r)
      (hn : IntegerForm ns n) :
      ArgumentForm .consecutive (ts ++ .mark ',' :: (ns ++ [.mark ')'])) (.consecutive r n)
  | anyOf {ts ns : List Token} {r : Rule α} {n : Nat} (h : RuleForm ts r)
      (hn : IntegerForm ns n) :
      ArgumentForm .anyOf (ts ++ .mark ',' :: (ns ++ [.mark ')'])) (.anyOf r n)

-- Rules with commas between them.
inductive RulesForm : List Token → List (Rule α) → Prop where
  | one {ts : List Token} {r : Rule α} (h : RuleForm ts r) : RulesForm ts [r]
  | more {ts us : List Token} {r : Rule α} {rs : List (Rule α)} (h : RuleForm ts r)
      (hrest : RulesForm us rs) : RulesForm (ts ++ .mark ',' :: us) (r :: rs)

end

-- So are the words of rules.
example : RuleWord.every.map (fun w => (w.text, w)) =
    [("CROSS_ABOVE", .comparison .crossAbove), ("CROSS_BELOW", .comparison .crossBelow),
      ("ABOVE", .comparison .above), ("BELOW", .comparison .below),
      ("EQUALS", .comparison .equals), ("BETWEEN", .between), ("AND", .all), ("OR", .any),
      ("NOT", .not), ("CONSECUTIVE", .consecutive), ("ANY_OF", .anyOf)] := rfl

-- A text that is a rule, with white space before, between and after its tokens.
def Spells (s : List Char) (r : Rule α) : Prop :=
  ∃ ts body blanks, RuleForm ts r ∧ Spaced ts body ∧ (∀ c ∈ blanks, isBlank c = true) ∧
    s = body ++ blanks

-- Tokens of a form, and then white space, in front of which the form goes on with an integer.
def IntegerDue {β : Type} (form : List Token → β → Prop) (front : List Char) : Prop :=
  ∃ ts cs us x body blanks, form (ts ++ .integer cs :: us) x ∧ Spaced ts body ∧
    (∀ c ∈ blanks, isBlank c = true) ∧ front = body ++ blanks

-- All the digits at a place of a text where an integer is due, whatever stands behind them.
def IntegerLiteral {β : Type} (form : List Token → β → Prop) (s cs : List Char) : Prop :=
  ∃ front ds rest, IntegerDue form front ∧ s = front ++ (cs ++ rest) ∧ Digits cs ds ∧ NoDigit rest

theorem Spaced.append {ts us : List Token} {s t : List Char} (h : Spaced ts s)
    (h' : Spaced us t) : Spaced (ts ++ us) (s ++ t) := by
  induction h with
  | nil => exact h'
  | cons hblank h ih =>
    rw [List.append_assoc, List.append_assoc]
    exact .cons hblank ih

theorem Spaced.split {ts us : List Token} {s : List Char} (h : Spaced (ts ++ us) s) :
    ∃ u v, s = u ++ v ∧ Spaced ts u ∧ Spaced us v := by
  induction ts generalizing s with
  | nil => exact ⟨[], s, rfl, .nil, h⟩
  | cons t ts ih =>
    cases h with
    | @cons blanks _ _ w hblank h =>
      obtain ⟨u, v, rfl, hu, hv⟩ := ih h
      refine ⟨blanks ++ (t.chars ++ u), v, ?_, .cons hblank hu, hv⟩
      simp only [List.append_assoc]

end BarReplay.Rule.Grammar
