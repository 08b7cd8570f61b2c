import BarReplay.Rule.Basic

namespace BarReplay

open Indicator

-- The words that begin an operand.
inductive OperandWord where
  | price (field : PriceField)
  | windowed (w : Windowed)
  | obv
  | vwap
  -- one field of an indicator with several
  | part (kind : Kind) (field : Field)
  deriving DecidableEq

def PriceField.name : PriceField → String
  | opening => "open" | high => "high" | low => "low" | close => "close" | volume => "volume"

def PriceField.every : List PriceField := [.opening, .high, .low, .close, .volume]

def PriceField.ofName? (s : String) : Option PriceField :=
  every.find? fun f => f.name = s

namespace OperandWord

-- The words and what they stand for.
def table : List (String × OperandWord) :=
  PriceField.every.map (fun f => (f.name, price f)) ++
  Windowed.every.map (fun w => (w.name, windowed w)) ++
  [ ("OBV", obv),
    ("VWAP", vwap),
    ("MACD_LINE", part .macd .line),
    ("MACD_SIGNAL", part .macd .signal),
    ("MACD_HISTOGRAM", part .macd .histogram),
    ("STOCHASTIC_K", part .stochastic .k),
    ("STOCHASTIC_D", part .stochastic .d),
    ("BOLLINGER_UPPER", part .bollinger .upper),
    ("BOLLINGER_MIDDLE", part .bollinger .middle),
    ("BOLLINGER_LOWER", part .bollinger .lower),
    ("PIVOT", part .pivot .pivot),
    ("PIVOT_R1", part .pivot .r1),
    ("PIVOT_R2", part .pivot .r2),
    ("PIVOT_R3", part .pivot .r3),
    ("PIVOT_S1", part .pivot .s1),
    ("PIVOT_S2", part .pivot .s2),
    ("PIVOT_S3", part .pivot .s3) ]

def ofText? (s : String) : Option OperandWord :=
  table.lookup s

end OperandWord

-- The word for one field of an indicator. Every field that belongs to a kind has one.
def Indicator.Kind.word (k : Kind) (f : Field) : String :=
  match OperandWord.table.find? fun (_, w) => w = .part k f with
  | some (s, _) => s
  | none => k.name

-- The words that begin a rule.
inductive RuleWord where
  | comparison (c : Comparison)
  | between
  | all
  | any
  | not
  | consecutive
  | anyOf
  deriving DecidableEq

def Comparison.name : Comparison → String
  | crossAbove => "CROSS_ABOVE" | crossBelow => "CROSS_BELOW"
  | above => "ABOVE" | below => "BELOW" | equals => "EQUALS"

namespace RuleWord

def text : RuleWord → String
  | comparison c => c.name
  | between => "BETWEEN"
  | all => "AND"
  | any => "OR"
  | not => "NOT"
  | consecutive => "CONSECUTIVE"
  | anyOf => "ANY_OF"

def every : List RuleWord :=
  [.comparison .crossAbove, .comparison .crossBelow, .comparison .above, .comparison .below,
    .comparison .equals, .between, .all, .any, .not, .consecutive, .anyOf]

def ofText? (s : String) : Option RuleWord :=
  every.find? fun w => w.text = s

end RuleWord

variable {α : Type} [Numeral α]

def Operand.text : Operand α → String
  | price f => f.name
  | constant x => Numeral.text x
  | reading s f => Spec.applied (s.kind.word f) s.parameterTexts

namespace Rule

-- A word and its arguments in brackets.
def call (w : RuleWord) (arguments : List String) : String :=
  w.text ++ "(" ++ ", ".intercalate arguments ++ ")"

mutual

-- The canonical text, which reads back as the same rule.
def text : Rule α → String
  | compare c l r => call (.comparison c) [l.text, r.text]
  | between o l u => call .between [o.text, Numeral.text l, Numeral.text u]
  | all rs => call .all (texts rs)
  | any rs => call .any (texts rs)
  | not r => call .not [r.text]
  | consecutive r n => call .consecutive [r.text, Decimal.text n]
  | anyOf r n => call .anyOf [r.text, Decimal.text n]

def texts : List (Rule α) → List String
  | [] => []
  | r :: rs => r.text :: texts rs

end

end Rule

def RuleError.message : RuleError α → String
  | spec e => e.message
  | constant x => "Constant must be finite, got " ++ Numeral.text x
  | field s f => s.text ++ " has no field '" ++ f.name ++ "'"
  | bounds => "BETWEEN bounds must be finite"
  | fewRules true => RuleWord.all.text ++ " requires at least 2 rules"
  | fewRules false => RuleWord.any.text ++ " requires at least 2 rules"
  | count true => RuleWord.consecutive.text ++ " count must be at least 1"
  | count false => RuleWord.anyOf.text ++ " count must be at least 1"

end BarReplay
