import BarReplay.Amount

namespace BarReplay.Indicator

open Amount

-- A running average that starts as the mean of its first `period` values. Until then it is
-- zero; later values are blended in.
structure SeededAverage (α : Type) where
  seen : Nat
  total : α
  average : α

namespace SeededAverage

variable {α : Type} [Amount α]

def empty : SeededAverage α := ⟨0, 0, 0⟩

def push (period : Nat) (blend : α → α → α) (s : SeededAverage α) (x : α) : SeededAverage α :=
  if s.seen + 1 < period then ⟨s.seen + 1, s.total + x, 0⟩
  else if s.seen + 1 = period then ⟨s.seen + 1, s.total + x, (s.total + x) / whole period⟩
  else ⟨s.seen + 1, s.total, blend s.average x⟩

def ready (period : Nat) (s : SeededAverage α) : Bool :=
  period ≤ s.seen

-- An exponential average moves towards the new value by a fixed fraction `k`.
def exponential (k average x : α) : α :=
  x * k + average * (1 - k)

-- The fraction of an exponential average over a period.
def fraction (period : Nat) : Except Fault α := do
  let n ← ofInt (period + 1)
  return whole 2 / n

-- Wilder's average gives the new value the weight of one in `period`.
def wilder (period : Nat) (average x : α) : α :=
  (average * whole (period - 1) + x) / whole period

end SeededAverage

end BarReplay.Indicator
