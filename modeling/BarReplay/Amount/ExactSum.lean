import BarReplay.Amount

namespace BarReplay.Amount.ExactSum

variable {α : Type} [Amount α]

-- Absorbs `x` into parts that do not overlap, smallest first.
-- Each step splits a sum of two into its rounded value and the error, which is exact,
-- so the parts and the carried value together keep the exact total.
def absorb (x : α) : List α → List α × α
  | [] => ([], x)
  | y :: parts =>
    let (big, small) := if abs x < abs y then (y, x) else (x, y)
    let hi := big + small
    let lo := small - (hi - big)
    let (kept, top) := absorb hi parts
    (if same lo 0 then kept else lo :: kept, top)

-- Parts of a running total, smallest first, and the summands that are not finite.
structure State (α : Type) where
  parts : List α
  special : α
  infinite : α

def State.empty : State α := ⟨[], 0, 0⟩

def State.add (s : State α) (x : α) : Except Fault (State α) :=
  let (kept, top) := absorb x s.parts
  if same top 0 then
    .ok { s with parts := kept }
  else if isFinite top then
    .ok { s with parts := kept ++ [top] }
  else if isFinite x then
    .error .overflow
  else
    -- only an infinity is the same as itself here
    .ok ⟨[], s.special + x, if same x x then s.infinite + x else s.infinite⟩

-- Adds parts, given largest first, until one addition is inexact.
-- A tie of that addition goes away from the rounded value when a further part of the
-- same sign is left, so that the total is rounded once.
def settle (hi : α) : List α → α
  | [] => hi
  | y :: rest =>
    let total := hi + y
    let lo := y - (total - hi)
    if same lo 0 then
      settle total rest
    else
      match rest with
      | [] => total
      | z :: _ =>
        if (lo < 0 ∧ z < 0) ∨ (0 < lo ∧ 0 < z) then
          let twice := lo * whole 2
          let moved := total + twice
          if same twice (moved - total) then moved else total
        else
          total

def State.total (s : State α) : Except Fault α :=
  if same s.special 0 then
    match s.parts.reverse with
    | [] => .ok 0
    | top :: rest => .ok (settle top rest)
  else if same s.infinite s.infinite then
    .ok s.special
  else
    .error .opposedInfinities

end ExactSum

-- The exact sum, rounded once.
def exactSum {α : Type} [Amount α] (xs : List α) : Except Fault α := do
  let s ← xs.foldlM ExactSum.State.add ExactSum.State.empty
  s.total

end BarReplay.Amount
