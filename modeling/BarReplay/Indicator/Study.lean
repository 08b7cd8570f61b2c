import BarReplay.Indicator.Series

namespace BarReplay.Indicator

-- What is known when a bar closes: the bar and those before it, the latest first.
structure Moment (α : Type) where
  earlier : List (Bar α)
  bar : Bar α

namespace Moment

variable {α : Type}

-- The number of bars before this one.
def index (m : Moment α) : Nat :=
  m.earlier.length

-- The bar `n` bars ago; `0` is this bar.
def ago? (m : Moment α) (n : Nat) : Option (Bar α) :=
  (m.bar :: m.earlier)[n]?

-- The last `n` bars, oldest first; fewer if there are not so many.
def window (m : Moment α) (n : Nat) : List (Bar α) :=
  ((m.bar :: m.earlier).take n).reverse

end Moment

-- An indicator as a machine that is shown one bar after the other. It sees no later bar, so
-- what it says about a bar does not depend on what follows.
structure Study (α σ : Type) where
  start : Except Fault σ
  -- the next state, whether the indicator is past its warm-up, and its values
  step : σ → Moment α → Except Fault (σ × Bool × Reading α)

namespace Study

variable {α σ : Type}

def walk (s : Study α σ) (state : σ) (earlier : List (Bar α)) :
    List (Bar α) → Except Fault (List (Point α))
  | [] => .ok []
  | b :: bars => do
    let (next, valid, reading) ← s.step state ⟨earlier, b⟩
    let points ← s.walk next (b :: earlier) bars
    return ⟨b.date, valid, reading⟩ :: points

def run (s : Study α σ) (bars : List (Bar α)) : Except Fault (List (Point α)) := do
  s.walk (← s.start) [] bars

end Study

end BarReplay.Indicator
