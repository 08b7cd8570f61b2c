import BarReplay.Json.Basic
import BarReplay.Rule.Text

namespace BarReplay

open Indicator

namespace Indicator.Spec

def parameterJson : Spec Float → List Json
  | windowed _ n => [.int n]
  | macd a b c => [.int a, .int b, .int c]
  | stochastic a b => [.int a, .int b]
  | bollinger n m => [.int n, .real m]
  | obv | vwap | pivot => []

def toJson (s : Spec Float) : Json :=
  .object [("kind", .text s.kind.name), ("params", .list s.parameterJson), ("text", .text s.text)]

end Indicator.Spec

def Operand.toJson : Operand Float → Json
  | price f => .object [("price", .text f.name)]
  | constant x => .object [("const", .real x)]
  | reading s f =>
    .object [("ind", .text s.kind.name), ("params", .list s.parameterJson), ("field", .text f.name)]

namespace Rule

mutual

-- A rule as a tree of objects, each with its kind under `t`.
def toJson : Rule Float → Json
  | compare c l r =>
    .object [("t", .text c.name), ("left", l.toJson), ("right", r.toJson)]
  | between o l u =>
    .object [("t", .text "BETWEEN"), ("operand", o.toJson), ("lower", .real l), ("upper", .real u)]
  | all rs => .object [("t", .text "AND"), ("rules", .list (listToJson rs))]
  | any rs => .object [("t", .text "OR"), ("rules", .list (listToJson rs))]
  | not r => .object [("t", .text "NOT"), ("rule", r.toJson)]
  | consecutive r n => .object [("t", .text "CONSECUTIVE"), ("rule", r.toJson), ("count", .int n)]
  | anyOf r n => .object [("t", .text "ANY_OF"), ("rule", r.toJson), ("count", .int n)]

def listToJson : List (Rule Float) → List Json
  | [] => []
  | r :: rs => r.toJson :: listToJson rs

end

-- Why a value is not the JSON form of a rule or of a part of one.
inductive FormError where
  | rule (error : RuleError Float)
  -- something is missing, or is of the wrong kind
  | shape (name : String)

-- A member that has to be there and to be of a kind.
def part {β : Type} (j : Json) (name : String) (read : Json → Option β) : Except FormError β :=
  match (j.get? name).bind read with
  | some x => .ok x
  | none => .error (.shape name)

-- A member that may be left out.
def partD {β : Type} (j : Json) (name : String) (read : Json → Option β) (default : β) :
    Except FormError β :=
  match j.get? name with
  | none | some .null => .ok default
  | some _ => part j name read

end Rule

open Rule

def Indicator.Parameter.ofJson? : Json → Option (Parameter Float)
  | .int n => some (.whole n)
  | j => j.toFloat?.map .amount

-- A spec whose kind stands under a name of its own.
def Indicator.Spec.ofJson (kindName : String) (j : Json) : Except FormError (Spec Float) := do
  let kind ← part j kindName fun k => k.toText?.bind Kind.ofName?
  let parameters ← partD j "params" (fun ps => ps.toList?.bind (·.mapM Parameter.ofJson?)) []
  (Spec.make? kind parameters).mapError fun e => .rule (.spec e)

def Operand.ofJson (j : Json) : Except FormError (Operand Float) := do
  if (j.get? "price").isSome then
    return price (← part j "price" fun p => p.toText?.bind PriceField.ofName?)
  else if (j.get? "const").isSome then
    (constant? (← part j "const" Json.toFloat?)).mapError .rule
  else
    let s ← Spec.ofJson "ind" j
    let f ← partD j "field" (fun f => f.toText?.bind Field.ofName?) .value
    (reading? s f).mapError .rule

def Comparison.ofName? (s : String) : Option Comparison :=
  [crossAbove, crossBelow, above, below, equals].find? (·.name = s)

-- The rule of a tree. Children come first and each part is checked as it is made, so that the
-- first of several errors is the one that stands furthest down and to the left.
def Rule.ofJson (j : Json) : Except FormError (Rule Float) := do
  let operand (name : String) : Except FormError (Operand Float) := do
    Operand.ofJson (← part j name some)
  let child : Except FormError (Rule Float) :=
    match _h : j.get? "rule" with
    | some r => ofJson r
    | none => .error (.shape "rule")
  let children : Except FormError (List (Rule Float)) :=
    match _h : j.get? "rules" with
    | none => .error (.shape "rules")
    | some rs =>
      match _h' : rs.toList? with
      | none => .error (.shape "rules")
      | some items => items.attach.mapM fun ⟨r, _hr⟩ => ofJson r
  match ← part j "t" Json.toText? with
  | "BETWEEN" =>
    let o ← operand "operand"
    (between? o (← part j "lower" Json.toFloat?) (← part j "upper" Json.toFloat?)).mapError .rule
  | "AND" => (all? (← children)).mapError .rule
  | "OR" => (any? (← children)).mapError .rule
  | "NOT" => return .not (← child)
  | "CONSECUTIVE" => (consecutive? (← child) (← part j "count" Json.toInt?)).mapError .rule
  | "ANY_OF" => (anyOf? (← child) (← part j "count" Json.toInt?)).mapError .rule
  | t =>
    match Comparison.ofName? t with
    | some c => return .compare c (← operand "left") (← operand "right")
    | none => .error (.shape "t")
termination_by sizeOf j
decreasing_by
  · exact Json.sizeOf_get?_lt _h
  · exact Nat.lt_trans (Json.sizeOf_toList?_lt _h' _hr) (Json.sizeOf_get?_lt _h)

end BarReplay
