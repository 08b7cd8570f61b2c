import BarReplay.Amount.Double

namespace BarReplay.Indicator

-- Indicators with one value per bar and one period.
inductive Windowed where
  | sma | ema | wma | rsi | roc | atr | stddev
  deriving DecidableEq

inductive Kind where
  | windowed (w : Windowed)
  | obv | vwap | macd | stochastic | bollinger | pivot
  deriving DecidableEq

-- The named values of one indicator point.
inductive Field where
  | value
  | line | signal | histogram
  | k | d
  | upper | middle | lower
  | pivot | r1 | r2 | r3 | s1 | s2 | s3
  deriving DecidableEq

def Windowed.name : Windowed → String
  | sma => "SMA" | ema => "EMA" | wma => "WMA" | rsi => "RSI" | roc => "ROC" | atr => "ATR"
  | stddev => "STDDEV"

def Windowed.every : List Windowed := [.sma, .ema, .wma, .rsi, .roc, .atr, .stddev]

namespace Kind

def name : Kind → String
  | windowed w => w.name
  | obv => "OBV" | vwap => "VWAP" | macd => "MACD" | stochastic => "STOCHASTIC"
  | bollinger => "BOLLINGER" | pivot => "PIVOT"

def every : List Kind :=
  Windowed.every.map windowed ++ [.obv, .vwap, .macd, .stochastic, .bollinger, .pivot]

def ofName? (s : String) : Option Kind :=
  every.find? fun k => k.name = s

-- How many parameters the kind takes.
def arity : Kind → Nat
  | windowed _ => 1
  | obv | vwap | pivot => 0
  | macd => 3
  | stochastic | bollinger => 2

def fields : Kind → List Field
  | macd => [.line, .signal, .histogram]
  | stochastic => [.k, .d]
  | bollinger => [.upper, .middle, .lower]
  | pivot => [.pivot, .r1, .r2, .r3, .s1, .s2, .s3]
  | windowed _ | obv | vwap => [.value]

end Kind

namespace Field

def name : Field → String
  | value => "value"
  | line => "line" | signal => "signal" | histogram => "histogram"
  | k => "k" | d => "d"
  | upper => "upper" | middle => "middle" | lower => "lower"
  | pivot => "pivot" | r1 => "r1" | r2 => "r2" | r3 => "r3" | s1 => "s1" | s2 => "s2" | s3 => "s3"

def every : List Field :=
  [.value, .line, .signal, .histogram, .k, .d, .upper, .middle, .lower,
    .pivot, .r1, .r2, .r3, .s1, .s2, .s3]

def ofName? (s : String) : Option Field :=
  every.find? fun f => f.name = s

end Field

-- An indicator with its parameters: periods are whole numbers, the width of Bollinger bands
-- is an amount.
inductive Spec (α : Type) where
  | windowed (w : Windowed) (period : Nat)
  | obv
  | vwap
  | macd (fast slow signal : Nat)
  | stochastic (kPeriod dPeriod : Nat)
  | bollinger (period : Nat) (multiplier : α)
  | pivot

-- A parameter as it is given, before it is known to be a period.
inductive Parameter (α : Type) where
  | whole (n : Int)
  | amount (x : α)

-- Why parameters do not make a spec.
inductive SpecError (α : Type) where
  | parameterCount (kind : Kind) (given : Nat)
  | period (kind : Kind) (given : Parameter α)
  | multiplier (given : α)
  | arithmetic (fault : Fault)

namespace Spec

variable {α : Type}

def kind : Spec α → Kind
  | windowed w _ => .windowed w
  | obv => .obv
  | vwap => .vwap
  | macd .. => .macd
  | stochastic .. => .stochastic
  | bollinger .. => .bollinger
  | pivot => .pivot

def fields (s : Spec α) : List Field :=
  s.kind.fields

-- Periods are positive, a multiplier is finite and not negative.
def Valid [Amount α] : Spec α → Prop
  | windowed _ n => 1 ≤ n
  | macd a b c => 1 ≤ a ∧ 1 ≤ b ∧ 1 ≤ c
  | stochastic a b => 1 ≤ a ∧ 1 ≤ b
  | bollinger n m => 1 ≤ n ∧ Amount.isFinite m = true ∧ ¬ m < 0
  | obv | vwap | pivot => True

-- Equality as numbers: the two zero multipliers make the same spec.
def same [Amount α] : Spec α → Spec α → Bool
  | windowed v m, windowed w n => v = w && m == n
  | obv, obv => true
  | vwap, vwap => true
  | macd a b c, macd x y z => a == x && b == y && c == z
  | stochastic a b, stochastic x y => a == x && b == y
  | bollinger n a, bollinger m b => n == m && Amount.same a b
  | pivot, pivot => true
  | _, _ => false

-- The texts of the parameters.
def parameterTexts [Numeral α] : Spec α → List String
  | windowed _ n => [Decimal.text n]
  | macd a b c => [Decimal.text a, Decimal.text b, Decimal.text c]
  | stochastic a b => [Decimal.text a, Decimal.text b]
  | bollinger n m => [Decimal.text n, Numeral.text m]
  | obv | vwap | pivot => []

-- A word with parameters in brackets, or alone when there are none.
def applied (word : String) (parameters : List String) : String :=
  if parameters.isEmpty then word else word ++ "(" ++ ",".intercalate parameters ++ ")"

def text [Numeral α] (s : Spec α) : String :=
  applied s.kind.name s.parameterTexts

variable [Amount α]

-- A period is a positive whole number; a whole amount counts as one.
def period? (kind : Kind) (p : Parameter α) : Except (SpecError α) Nat :=
  match p with
  | .whole n => if n < 1 then .error (.period kind p) else .ok n.toNat
  | .amount x =>
    match Amount.floor x with
    | .error f => .error (.arithmetic f)
    | .ok n =>
      match Amount.ofInt n with
      | .error f => .error (.arithmetic f)
      | .ok (y : α) =>
        if Amount.same y x && decide (1 ≤ n) then .ok n.toNat else .error (.period kind p)

def multiplier? (p : Parameter α) : Except (SpecError α) α := do
  let x ←
    match p with
    | .amount x => pure x
    | .whole n => (Amount.ofInt n).mapError .arithmetic
  if Amount.isFinite x && !decide (x < 0) then .ok x else .error (.multiplier x)

-- The spec of a kind with parameters.
def make? (kind : Kind) (parameters : List (Parameter α)) : Except (SpecError α) (Spec α) :=
  match kind, parameters with
  | .windowed w, [p] => do return .windowed w (← period? kind p)
  | .obv, [] => .ok .obv
  | .vwap, [] => .ok .vwap
  | .pivot, [] => .ok .pivot
  | .macd, [p, q, r] => do return .macd (← period? kind p) (← period? kind q) (← period? kind r)
  | .stochastic, [p, q] => do return .stochastic (← period? kind p) (← period? kind q)
  | .bollinger, [p, q] => do return .bollinger (← period? kind p) (← multiplier? q)
  | _, _ => .error (.parameterCount kind parameters.length)

end Spec

def Parameter.text {α : Type} [Numeral α] : Parameter α → String
  | whole n => Decimal.textInt n
  | amount x => Numeral.text x

def SpecError.message {α : Type} [Numeral α] : SpecError α → String
  | parameterCount kind given =>
    kind.name ++ " takes " ++ Decimal.text kind.arity ++ " parameter(s), got " ++
      Decimal.text given
  | period kind given =>
    kind.name ++ " period must be a positive integer, got " ++ given.text
  | multiplier given => "BOLLINGER multiplier must be finite and >= 0, got " ++ Numeral.text given
  | arithmetic fault => fault.message

end BarReplay.Indicator
