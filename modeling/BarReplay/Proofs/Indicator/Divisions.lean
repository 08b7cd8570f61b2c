import Mathlib.Algebra.Order.Field.Basic
import BarReplay.Proofs.Amount.Untouched
import BarReplay.Proofs.Indicator.Stochastic
import BarReplay.Proofs.Indicator.Strength

namespace BarReplay

namespace Indicator

variable {α σ : Type}

-- A machine with the same steps.
theorem Study.follows_of_step {s s' : Study α σ} (hstart : s'.start = s.start)
    (hstep : ∀ state m, s'.step state m = s.step state m) : s'.Follows s fun _ => True where
  start := hstart
  first _ := trivial
  step m _ := hstep _ m
  next _ _ := trivial

theorem scalar_answer_congr {next : σ} {valid : Bool} {x y : α} (h : x = y) :
    (.ok (next, valid, .scalar x) : Except Fault (σ × Bool × Reading α)) =
      .ok (next, valid, .scalar y) :=
  congrArg (fun v => Except.ok (next, valid, Reading.scalar v)) h

end Indicator

namespace Exact

open Indicator

variable {K : Type} [Field K] [LinearOrder K] [FloorRing K] [Roots K] (byZero : K → K)

theorem simpleAverage_follows {n : Nat} (hn : 1 ≤ n) :
    (@simpleAverage K (.dividing byZero) n).Follows (simpleAverage n) fun _ => True :=
  Study.follows_of_step rfl fun _ _ =>
    scalar_answer_congr (if_congr Iff.rfl (div_whole_dividing byZero hn _) rfl)

theorem fraction_dividing (n : Nat) :
    @SeededAverage.fraction K (.dividing byZero) n = SeededAverage.fraction n := by
  have hn : ((((n + 1 : Nat) : Int)) : K) ≠ 0 := by
    rw [Int.cast_natCast]
    exact whole_ne_zero (by omega)
  exact congrArg Except.ok (div_dividing byZero hn)

theorem exponentialAverage_follows {n : Nat} (hn : 1 ≤ n) :
    (@exponentialAverage K (.dividing byZero) n).Follows (exponentialAverage n) fun _ => True := by
  refine Study.follows_of_step ?_ fun (k, average) m => ?_
  · simp only [exponentialAverage, fraction_dividing]
    rfl
  · simp only [exponentialAverage, push_dividing byZero hn]
    rfl

-- The divisor stays what it was at the start.
theorem weightedAverage_follows {n : Nat} (hn : 1 ≤ n) :
    (@weightedAverage K (.dividing byZero) n).Follows (weightedAverage n)
      fun s => s.divisor ≠ 0 where
  start := congrArg (fun d => Except.ok (WeightedState.mk d 0 0))
    (div_whole_dividing byZero (by decide) _)
  first {s} h := by
    cases h
    refine div_ne_zero ?_ (whole_ne_zero (by decide))
    rw [Int.cast_natCast]
    exact whole_ne_zero (Nat.mul_pos hn n.succ_pos)
  step {s} m hs := by
    simp only [weightedAverage]
    cases m.ago? n with
    | none => exact scalar_answer_congr (if_congr Iff.rfl (div_dividing byZero hs) rfl)
    | some b => exact scalar_answer_congr (if_congr Iff.rfl (div_dividing byZero hs) rfl)
  next {s m next valid reading} hs h := by
    cases h
    cases m.ago? n with
    | none => exact hs
    | some b => exact hs

theorem averageTrueRange_follows {n : Nat} (hn : 1 ≤ n) :
    (@averageTrueRange K (.dividing byZero) n).Follows (averageTrueRange n) fun _ => True := by
  refine Study.follows_of_step rfl fun average m => ?_
  simp only [averageTrueRange, push_dividing byZero hn, wilder_dividing byZero hn]
  rfl

theorem rateOfChange_follows (n : Nat) :
    (@rateOfChange K (.dividing byZero) n).Follows (rateOfChange n) fun _ => True := by
  refine Study.follows_of_step rfl fun _ m => ?_
  simp only [rateOfChange]
  cases m.ago? n with
  | none => rfl
  | some b =>
    refine scalar_answer_congr (if_ctx_congr Iff.rfl (fun _ => rfl) fun hclose => ?_)
    have hzero : b.close ≠ 0 := fun h => hclose (Amount.same_iff.2 h)
    exact congrArg (· * (Amount.whole 100 : K)) (div_dividing byZero hzero)

theorem exactSum_dividing (xs : List K) :
    @Amount.exactSum K (.dividing byZero) xs = Amount.exactSum xs :=
  Amount.exactSum_withOperations _ _ _ xs

theorem populationStats_dividing {xs : List K} (hxs : xs ≠ []) :
    @populationStats K (.dividing byZero) xs = populationStats xs := by
  simp only [populationStats, exactSum_dividing,
    div_whole_dividing byZero (List.length_pos_of_ne_nil hxs)]
  rfl

theorem closeStats?_dividing {n : Nat} (hn : 1 ≤ n) (m : Moment K) :
    @closeStats? K (.dividing byZero) n m = closeStats? n m := by
  have hcloses : (m.window n).map Bar.close ≠ [] := by
    obtain ⟨k, rfl⟩ := Nat.exists_eq_add_of_le' hn
    simp [Moment.window]
  unfold closeStats?
  split
  · rw [populationStats_dividing byZero hcloses]
  · rfl

theorem standardDeviation_follows {n : Nat} (hn : 1 ≤ n) :
    (@standardDeviation K (.dividing byZero) n).Follows (standardDeviation n) fun _ => True := by
  refine Study.follows_of_step rfl fun _ m => ?_
  simp only [standardDeviation, closeStats?_dividing byZero hn]

theorem bollinger_follows {n : Nat} (hn : 1 ≤ n) (multiplier : K) :
    (@bollinger K (.dividing byZero) n multiplier).Follows (bollinger n multiplier)
      fun _ => True := by
  refine Study.follows_of_step rfl fun _ m => ?_
  simp only [bollinger, closeStats?_dividing byZero hn]

theorem onBalanceVolume_follows :
    (@onBalanceVolume K (.dividing byZero)).Follows onBalanceVolume fun _ => True :=
  Study.follows_of_step rfl fun _ _ => rfl

theorem typicalPrice_dividing (b : Bar K) :
    @Bar.typicalPrice K (.dividing byZero) b = b.typicalPrice :=
  div_whole_dividing byZero (by decide) _

theorem volumeWeightedPrice_follows :
    (@volumeWeightedPrice K (.dividing byZero)).Follows volumeWeightedPrice fun _ => True := by
  refine Study.follows_of_step rfl fun (worth, volume) m => ?_
  simp only [volumeWeightedPrice, typicalPrice_dividing]
  refine scalar_answer_congr (if_ctx_congr Iff.rfl (fun hvolume => ?_) fun _ => rfl)
  exact div_dividing byZero (ne_of_gt hvolume)

theorem convergence_follows {fast slow signal : Nat} (hfast : 1 ≤ fast) (hslow : 1 ≤ slow)
    (hsignal : 1 ≤ signal) :
    (@convergence K (.dividing byZero) fast slow signal).Follows (convergence fast slow signal)
      fun _ => True := by
  refine Study.follows_of_step ?_ fun s m => ?_
  · simp only [convergence, fraction_dividing]
    rfl
  · simp only [convergence, push_dividing byZero hfast, push_dividing byZero hslow,
      div_whole_dividing byZero hsignal]
    rfl

theorem floorPivots_dividing (b : Bar K) :
    @floorPivots K (.dividing byZero) b = floorPivots b := by
  have hthree : 1 ≤ 3 := by decide
  simp only [floorPivots, div_whole_dividing byZero hthree]
  rfl

theorem pivots_follows : (@pivots K (.dividing byZero)).Follows pivots fun _ => True := by
  refine Study.follows_of_step rfl fun _ m => ?_
  simp only [pivots, floorPivots_dividing]

variable [IsStrictOrderedRing K]

-- No indicator with periods divides by zero.
theorem points_dividing {s : Spec K} (hs : s.Valid) (bars : List (Bar K)) :
    @Spec.points K (.dividing byZero) s bars = s.points bars := by
  cases s with
  | windowed w n =>
    cases w with
    | sma => exact (simpleAverage_follows byZero hs).run bars
    | ema => exact (exponentialAverage_follows byZero hs).run bars
    | wma => exact (weightedAverage_follows byZero hs).run bars
    | rsi => exact (strengthIndex_follows byZero hs).run bars
    | roc => exact (rateOfChange_follows byZero n).run bars
    | atr => exact (averageTrueRange_follows byZero hs).run bars
    | stddev => exact (standardDeviation_follows byZero hs).run bars
  | obv => exact (onBalanceVolume_follows byZero).run bars
  | vwap => exact (volumeWeightedPrice_follows byZero).run bars
  | macd fast slow signal => exact (convergence_follows byZero hs.1 hs.2.1 hs.2.2).run bars
  | stochastic kPeriod dPeriod => exact (stochastic_follows byZero kPeriod hs.2).run bars
  | bollinger n multiplier => exact (bollinger_follows byZero hs.1 multiplier).run bars
  | pivot => exact (pivots_follows byZero).run bars

end Exact

end BarReplay
