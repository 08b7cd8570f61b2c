import BarReplay.Proofs.Amount.ExactSum
import BarReplay.Proofs.Indicator.History

namespace BarReplay

variable {K : Type} [Field K]

namespace Exact

def mean (xs : List K) : K :=
  xs.sum / xs.length

-- The mean square of the distances from the mean.
def variance (xs : List K) : K :=
  mean (xs.map fun x => (x - mean xs) * (x - mean xs))

variable [LinearOrder K] [FloorRing K] [Roots K]

open Indicator

theorem populationStats_eq (xs : List K) :
    populationStats xs = .ok (mean xs, Roots.sqrt (variance xs)) := by
  have hsquares : (xs.mapM fun x => Amount.square (x - mean xs)) =
      (.ok (xs.map fun x => (x - mean xs) * (x - mean xs)) : Except Fault (List K)) :=
    List.mapM_pure
  refine except_bind_eq_ok.2 ⟨_, Amount.exactSum_eq xs, ?_⟩
  refine except_bind_eq_ok.2 ⟨_, hsquares, ?_⟩
  refine except_bind_eq_ok.2 ⟨_, Amount.exactSum_eq _, ?_⟩
  simp only [variance, mean, List.length_map]
  rfl

theorem closeStats?_eq (period : Nat) (m : Moment K) :
    closeStats? period m = .ok (if period ≤ m.index + 1 then
      let closes := (m.window period).map Bar.close
      some (mean closes, Roots.sqrt (variance closes)) else none) := by
  unfold closeStats?
  split
  · rw [populationStats_eq]
    rfl
  · rfl

theorem fraction_eq (n : Nat) :
    (SeededAverage.fraction n : Except Fault K) = .ok (2 / (n + 1)) := by
  refine except_bind_eq_ok.2 ⟨_, rfl, ?_⟩
  rw [Amount.whole_exact]
  push_cast
  rfl

theorem wilder_eq (n : Nat) (a x : K) :
    SeededAverage.wilder n a x = (a * (n - 1 : Nat) + x) / n :=
  rfl

-- In exact arithmetic every indicator has a series over all bars.
theorem exists_points (s : Spec K) (bars : List (Bar K)) :
    ∃ points, s.points bars = .ok points := by
  cases s with
  | windowed w n =>
    cases w with
    | sma => exact Study.Total.run ⟨⟨_, rfl⟩, fun _ _ => ⟨_, rfl⟩⟩ bars
    | ema => exact Study.Total.run ⟨⟨_, rfl⟩, fun _ _ => ⟨_, rfl⟩⟩ bars
    | wma => exact Study.Total.run ⟨⟨_, rfl⟩, fun _ _ => ⟨_, rfl⟩⟩ bars
    | rsi =>
      refine Study.Total.run ⟨⟨_, rfl⟩, fun state m => ?_⟩ bars
      simp only [strengthIndex]
      split <;> exact ⟨_, rfl⟩
    | roc =>
      refine Study.Total.run ⟨⟨_, rfl⟩, fun state m => ?_⟩ bars
      simp only [rateOfChange]
      split <;> exact ⟨_, rfl⟩
    | atr => exact Study.Total.run ⟨⟨_, rfl⟩, fun _ _ => ⟨_, rfl⟩⟩ bars
    | stddev =>
      refine Study.Total.run ⟨⟨_, rfl⟩, fun state m => ?_⟩ bars
      simp only [standardDeviation, closeStats?_eq]
      split_ifs <;> exact ⟨_, rfl⟩
  | obv => exact Study.Total.run ⟨⟨_, rfl⟩, fun _ _ => ⟨_, rfl⟩⟩ bars
  | vwap => exact Study.Total.run ⟨⟨_, rfl⟩, fun _ _ => ⟨_, rfl⟩⟩ bars
  | macd fast slow signal =>
    exact Study.Total.run ⟨⟨_, rfl⟩, convergence_answers fast slow signal⟩ bars
  | stochastic kPeriod dPeriod =>
    exact Study.Total.run ⟨⟨_, rfl⟩, stochastic_answers kPeriod dPeriod⟩ bars
  | bollinger n multiplier =>
    refine Study.Total.run ⟨⟨_, rfl⟩, fun state m => ?_⟩ bars
    simp only [bollinger, closeStats?_eq]
    split_ifs <;> exact ⟨_, rfl⟩
  | pivot =>
    refine Study.Total.run ⟨⟨_, rfl⟩, fun state m => ?_⟩ bars
    simp only [pivots]
    split <;> exact ⟨_, rfl⟩

-- What a machine says with the last of some bars can be read there once it is past its warm-up.
theorem gives_of_tells {σ : Type} {s : Spec K} (hs : s.Valid) {study : Study K σ}
    (hstudy : ∀ bars, s.points bars = study.run bars) {Knows : List (Bar K) → σ → Prop}
    {Says : List (Bar K) → Reading K → Prop} (h : study.Tells Knows Says) {bars : List (Bar K)}
    {i : Nat} (hi : i < bars.length) (hwarm : s.warmUp ≤ i) :
    ∃ r, Says (bars.take (i + 1)) r ∧ ∀ f x, r.get? f = some x → s.Gives bars i f x := by
  obtain ⟨points, hpoints⟩ := exists_points s bars
  obtain ⟨p, hp⟩ := (s.exists_point_iff hpoints i).2 hi
  have hvalid : p.valid = true := (s.points_warmUp hs hpoints hp).1.2 hwarm
  refine ⟨p.reading, h.run (hstudy bars ▸ hpoints) hp, fun f x hx => ?_⟩
  refine ⟨⟨s, points⟩, except_bind_eq_ok.2 ⟨points, hpoints, rfl⟩, ?_⟩
  rw [Series.valueAt?_of_point ⟨s, points⟩ hp, if_pos hvalid, hx]

end Exact

end BarReplay
