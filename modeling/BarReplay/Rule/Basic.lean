import BarReplay.Indicator.Spec

namespace BarReplay

open Indicator

inductive PriceField where
  | opening | high | low | close | volume
  deriving DecidableEq

-- What a rule reads at a bar.
inductive Operand (α : Type) where
  | price (field : PriceField)
  | constant (value : α)
  | reading (spec : Spec α) (field : Field)

inductive Comparison where
  | crossAbove | crossBelow | above | below | equals
  deriving DecidableEq

-- A condition on a bar and the bars before it.
inductive Rule (α : Type) where
  | compare (comparison : Comparison) (left right : Operand α)
  | between (operand : Operand α) (lower upper : α)
  -- every child holds
  | all (rules : List (Rule α))
  -- some child holds
  | any (rules : List (Rule α))
  | not (rule : Rule α)
  -- the child holds on each of the last `count` bars
  | consecutive (rule : Rule α) (count : Nat)
  -- the child holds on at least one of the last `count` bars
  | anyOf (rule : Rule α) (count : Nat)

-- Why parts do not make an operand or a rule.
inductive RuleError (α : Type) where
  | spec (error : SpecError α)
  | constant (value : α)
  | field (spec : Spec α) (field : Field)
  | bounds
  | fewRules (conjunction : Bool)
  | count (consecutive : Bool)

variable {α : Type}

namespace Operand

-- Constants are finite and a field belongs to its indicator.
def Valid [Amount α] : Operand α → Prop
  | price _ => True
  | constant x => Amount.isFinite x = true
  | reading s f => s.Valid ∧ f ∈ s.fields

def specs : Operand α → List (Spec α)
  | reading s _ => [s]
  | price _ | constant _ => []

def same [Amount α] : Operand α → Operand α → Bool
  | price f, price g => f = g
  | constant x, constant y => Amount.same x y
  | reading s f, reading t g => s.same t && f = g
  | _, _ => false

def constant? [Amount α] (x : α) : Except (RuleError α) (Operand α) :=
  if Amount.isFinite x then .ok (constant x) else .error (.constant x)

def reading? (s : Spec α) (f : Field) : Except (RuleError α) (Operand α) :=
  if f ∈ s.fields then .ok (reading s f) else .error (.field s f)

end Operand

namespace Rule

mutual

-- Bounds are finite, conjunctions and disjunctions have two children or more, and
-- windows are not empty.
def Valid [Amount α] : Rule α → Prop
  | compare _ l r => l.Valid ∧ r.Valid
  | between o l u => o.Valid ∧ Amount.isFinite l = true ∧ Amount.isFinite u = true
  | all rs => 2 ≤ rs.length ∧ AllValid rs
  | any rs => 2 ≤ rs.length ∧ AllValid rs
  | not r => r.Valid
  | consecutive r n => r.Valid ∧ 1 ≤ n
  | anyOf r n => r.Valid ∧ 1 ≤ n

def AllValid [Amount α] : List (Rule α) → Prop
  | [] => True
  | r :: rs => r.Valid ∧ AllValid rs

end

mutual

def same [Amount α] : Rule α → Rule α → Bool
  | compare c l r, compare d m s => c = d && l.same m && r.same s
  | between o l u, between p m v => o.same p && Amount.same l m && Amount.same u v
  | all rs, all ss => sameList rs ss
  | any rs, any ss => sameList rs ss
  | not r, not s => r.same s
  | consecutive r m, consecutive s n => r.same s && m == n
  | anyOf r m, anyOf s n => r.same s && m == n
  | _, _ => false

def sameList [Amount α] : List (Rule α) → List (Rule α) → Bool
  | [], [] => true
  | r :: rs, s :: ss => r.same s && sameList rs ss
  | _, _ => false

end

def between? [Amount α] (o : Operand α) (lower upper : α) : Except (RuleError α) (Rule α) :=
  if Amount.isFinite lower && Amount.isFinite upper then .ok (between o lower upper)
  else .error .bounds

def all? (rules : List (Rule α)) : Except (RuleError α) (Rule α) :=
  if 2 ≤ rules.length then .ok (all rules) else .error (.fewRules true)

def any? (rules : List (Rule α)) : Except (RuleError α) (Rule α) :=
  if 2 ≤ rules.length then .ok (any rules) else .error (.fewRules false)

def consecutive? (r : Rule α) (count : Int) : Except (RuleError α) (Rule α) :=
  if 1 ≤ count then .ok (consecutive r count.toNat) else .error (.count true)

def anyOf? (r : Rule α) (count : Int) : Except (RuleError α) (Rule α) :=
  if 1 ≤ count then .ok (anyOf r count.toNat) else .error (.count false)

mutual

-- The specs of a rule in reading order, repetitions included.
def specs : Rule α → List (Spec α)
  | compare _ l r => l.specs ++ r.specs
  | between o _ _ => o.specs
  | all rs => specsOfList rs
  | any rs => specsOfList rs
  | not r => r.specs
  | consecutive r _ => r.specs
  | anyOf r _ => r.specs

def specsOfList : List (Rule α) → List (Spec α)
  | [] => []
  | r :: rs => r.specs ++ specsOfList rs

end

end Rule

-- The first of each group of equal specs, in order.
def Indicator.Spec.distinct [Amount α] (specs : List (Spec α)) : List (Spec α) :=
  specs.foldl (fun seen s => if seen.any s.same then seen else seen ++ [s]) []

-- The distinct indicators that a rule reads.
def Rule.indicators [Amount α] (r : Rule α) : List (Spec α) :=
  Spec.distinct r.specs

end BarReplay
