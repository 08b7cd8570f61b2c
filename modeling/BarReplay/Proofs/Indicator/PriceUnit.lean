import BarReplay.Proofs.Indicator.Repricing

namespace BarReplay

namespace Indicator.Kind

-- Whether the values of an indicator are prices or distances of prices. The others are percentages
-- and numbers of shares.
def inPrices : Kind → Bool
  | windowed .sma | windowed .ema | windowed .wma | windowed .atr | windowed .stddev => true
  | windowed .rsi | windowed .roc => false
  | vwap | macd | bollinger | pivot => true
  | obv | stochastic => false

-- What becomes of the values when prices are multiplied by `c`.
def factor {K : Type} [One K] (c : K) (k : Kind) : K :=
  if k.inPrices then c else 1

end Indicator.Kind

namespace Exact

open Indicator Study

variable {K : Type} [Field K] [LinearOrder K] [FloorRing K] [Roots K]

-- A quotient that is not there yet is zero in any unit.
theorem quotient_scale (c x y : K) (full : Bool) :
    (if full then c * x / y else 0) = c * if full then x / y else 0 := by
  rw [mul_ite, mul_zero, mul_div_assoc]

theorem simpleAverage_scales (c : K) (n : Nat) : (simpleAverage n).Scales c c (c * ·) where
  start state h := by
    cases h
    exact mul_zero c
  step total m := by
    have hreading {t t' : K} (full : Bool) (ht : t' = c * t) :
        Reading.scalar (if full then t' / n else 0) =
          (Reading.scalar (if full then t / n else 0)).scale c :=
      congrArg Reading.scalar (ht ▸ quotient_scale c t n full)
    simp only [simpleAverage, m.ago?_reprice, m.index_reprice, m.close_reprice]
    cases m.ago? n with
    | none =>
      have htotal : c * total + c * m.bar.close = c * (total + m.bar.close) := (mul_add ..).symm
      exact Scales.answer htotal (hreading _ htotal)
    | some b =>
      have htotal : c * total + c * m.bar.close - c * b.close =
          c * (total + m.bar.close - b.close) := by ring
      exact Scales.answer htotal (hreading _ htotal)

theorem exponentialAverage_scales (c : K) (n : Nat) :
    (exponentialAverage n).Scales c c (Prod.map id (SeededAverage.scale c)) where
  start state h := by
    cases h
    exact congrArg _ (empty_scale c)
  step := fun (k, average) m => by
    simp only [exponentialAverage, Prod.map, id_eq, m.close_reprice,
      push_scale (exponential_scale c k)]
    rfl

theorem weightedAverage_scales (c : K) (n : Nat) :
    (weightedAverage n).Scales c c (WeightedState.scale c) where
  start state h := by
    cases h
    exact congrArg₂ _ (mul_zero c) (mul_zero c)
  step s m := by
    have hanswer (full : Bool) {t t' : WeightedState K} (ht : t' = t.scale c) :
        (.ok (t', full, .scalar (if full then t'.weighted / t'.divisor else 0)) : Except Fault _) =
          Except.map (rescale c (WeightedState.scale c))
            (.ok (t, full, .scalar (if full then t.weighted / t.divisor else 0))) :=
      Scales.answer ht (ht ▸ congrArg Reading.scalar (quotient_scale c _ _ full))
    simp only [weightedAverage, WeightedState.scale, m.ago?_reprice, m.index_reprice, m.close_reprice]
    cases m.ago? n with
    | none =>
      have hweighted : c * s.weighted + Amount.whole (m.index + 1) * (c * m.bar.close) =
          c * (s.weighted + Amount.whole (m.index + 1) * m.bar.close) := by ring
      have htotal : c * s.total + c * m.bar.close = c * (s.total + m.bar.close) := by ring
      exact hanswer _ (congrArg₂ _ hweighted htotal)
    | some b =>
      have hweighted : c * s.weighted + (Amount.whole n * (c * m.bar.close) - c * s.total) =
          c * (s.weighted + (Amount.whole n * m.bar.close - s.total)) := by ring
      have htotal : c * s.total + (c * m.bar.close - c * b.close) =
          c * (s.total + (m.bar.close - b.close)) := by ring
      exact hanswer _ (congrArg₂ _ hweighted htotal)

-- What the shares were worth is in the unit of prices, and their number is not.
theorem volumeWeightedPrice_scales (c : K) :
    (volumeWeightedPrice : Study K (K × K)).Scales c c (Prod.map (c * ·) id) where
  start state h := by
    cases h
    exact congrArg (·, _) (mul_zero c)
  step := fun (worth, volume) m => by
    have hworth : c * worth + (m.bar.reprice c).typicalPrice * m.bar.volume =
        c * (worth + m.bar.typicalPrice * m.bar.volume) := by
      rw [typicalPrice_reprice]
      ring
    refine Scales.answer (congrArg (·, _) hworth) (congrArg Reading.scalar ?_)
    rw [mul_ite]
    refine if_congr Iff.rfl ?_ (typicalPrice_reprice c m.bar)
    exact (congrArg (· / (volume + m.bar.volume)) hworth).trans (mul_div_assoc ..)

theorem convergence_scales (c : K) (fast slow signal : Nat) :
    (convergence fast slow signal).Scales c c (ConvergenceState.scale c) where
  start state h := by
    cases h
    simp only [ConvergenceState.scale, empty_scale, mul_zero]
  step s m := by
    have hline (x y : K) : c * x - c * y = c * (x - y) := (mul_sub ..).symm
    have hseed (x y : K) : c * x + c * y = c * (x + y) := (mul_add ..).symm
    have hblend (x y : K) : c * x * s.signalFraction + c * y * (1 - s.signalFraction) =
        c * (x * s.signalFraction + y * (1 - s.signalFraction)) := by
      ring
    have haverage (t : SeededAverage K) : (t.scale c).average = c * t.average := rfl
    simp only [convergence, ConvergenceState.scale, m.close_reprice, m.index_reprice, haverage,
      hline, hseed, hblend, mul_div_assoc, push_scale (exponential_scale c _)]
    generalize s.fast.push fast (SeededAverage.exponential s.fastFraction) m.bar.close = f
    generalize s.slow.push slow (SeededAverage.exponential s.slowFraction) m.bar.close = g
    have hzero : c * 0 = 0 := mul_zero c
    split
    · exact Scales.answer rfl (by simp only [Reading.scale, hzero])
    · split
      · exact Scales.answer rfl (by simp only [Reading.scale, hzero])
      · split
        · exact Scales.answer rfl rfl
        · exact Scales.answer rfl rfl

theorem pivots_scales (c : K) : (pivots : Study K Unit).Scales c c id where
  start _ _ := rfl
  step _ m := by
    simp only [pivots, m.ago?_reprice]
    cases m.ago? 1 with
    | none => exact Scales.answer rfl (by simp only [Reading.scale, mul_zero])
    | some previous => exact Scales.answer rfl (floorPivots_reprice c previous)

variable [IsStrictOrderedRing K] {c : K} (hc : 0 < c)

include hc

theorem averageTrueRange_scales (n : Nat) :
    (averageTrueRange n).Scales c c (SeededAverage.scale c) where
  start state h := by
    cases h
    exact empty_scale c
  step average m := by
    have hprevious : ((m.reprice c).ago? 1).map Bar.close =
        ((m.ago? 1).map Bar.close).map (c * ·) := by
      rw [m.ago?_reprice, Option.map_map, Option.map_map]
      rfl
    have hrange := trueRange_reprice hc m.bar ((m.ago? 1).map Bar.close)
    simp only [averageTrueRange, hprevious, m.bar_reprice, hrange, push_scale (wilder_scale c n)]
    rfl

theorem standardDeviation_scales (hroot : SquareRoots K) (n : Nat) :
    (standardDeviation n).Scales c c id where
  start _ _ := rfl
  step _ m := by
    obtain ⟨stats, hstats, hrepriced⟩ := closeStats?_reprice hc hroot n m
    simp only [standardDeviation, hstats, hrepriced]
    cases stats with
    | none => exact Scales.answer rfl (by simp only [Reading.scale, mul_zero])
    | some stats => rfl

theorem bollinger_scales (hroot : SquareRoots K) (n : Nat) (multiplier : K) :
    (bollinger n multiplier).Scales c c id where
  start _ _ := rfl
  step _ m := by
    obtain ⟨stats, hstats, hrepriced⟩ := closeStats?_reprice hc hroot n m
    simp only [bollinger, hstats, hrepriced]
    cases stats with
    | none => exact Scales.answer rfl (by simp only [Reading.scale, mul_zero])
    | some stats =>
      have hband : multiplier * (c * stats.2) = c * (multiplier * stats.2) := mul_left_comm ..
      exact Scales.answer rfl (by simp only [Reading.scale, hband, mul_add, mul_sub])

-- Both averages of moves are in the unit, and their ratio is not.
theorem strengthIndex_scales (n : Nat) :
    (strengthIndex n).Scales c 1 (Prod.map (SeededAverage.scale c) (SeededAverage.scale c)) where
  start state h := by
    cases h
    exact congrArg₂ _ (empty_scale c) (empty_scale c)
  step := fun (gains, losses) m => by
    simp only [strengthIndex, m.ago?_reprice, m.close_reprice, Prod.map]
    cases m.ago? 1 with
    | none => exact Scales.answer rfl (reading_scale_one _).symm
    | some previous =>
      have hchange : c * m.bar.close - c * previous.close = c * (m.bar.close - previous.close) :=
        (mul_sub ..).symm
      simp only [Option.map_some, Bar.reprice, hchange, gain_scale hc, loss_scale hc,
        push_scale (wilder_scale c n)]
      refine Scales.answer rfl ?_
      simp only [SeededAverage.scale, relativeStrength_scale hc]
      exact (reading_scale_one _).symm

theorem rateOfChange_scales (n : Nat) : (rateOfChange n).Scales c 1 id where
  start _ _ := rfl
  step _ m := by
    simp only [rateOfChange, m.ago?_reprice, m.close_reprice, Amount.same_iff]
    cases m.ago? n with
    | none => exact Scales.answer rfl (reading_scale_one _).symm
    | some previous =>
      have hchange : (c * m.bar.close - c * previous.close) / (c * previous.close) =
          (m.bar.close - previous.close) / previous.close := by
        rw [← mul_sub, mul_div_mul_left _ _ hc.ne']
      refine Scales.answer rfl (Eq.trans ?_ (reading_scale_one _).symm)
      refine congrArg Reading.scalar (if_congr (mul_eq_zero_iff_left hc.ne') rfl ?_)
      exact congrArg (· * (Amount.whole 100 : K)) hchange

-- A close is above another one in every unit.
theorem onBalanceVolume_scales : (onBalanceVolume : Study K K).Scales c 1 id where
  start _ _ := rfl
  step total m := by
    simp only [onBalanceVolume, m.ago?_reprice]
    cases m.ago? 1 with
    | none => exact Scales.answer rfl (reading_scale_one _).symm
    | some previous =>
      have hless (x y : K) : (c * x < c * y) = (x < y) := propext (mul_lt_mul_iff_right₀ hc)
      simp only [Option.map_some, Moment.reprice, Bar.reprice, hless, id_eq]
      exact Scales.answer rfl (reading_scale_one _).symm

theorem stochastic_scales (kPeriod dPeriod : Nat) :
    (stochastic kPeriod dPeriod).Scales c 1 id where
  start _ _ := rfl
  step positions m := by
    simp only [stochastic, m.index_reprice, m.close_reprice, m.window_reprice,
      rangePosition_reprice hc]
    split
    · exact Scales.answer rfl (reading_scale_one _).symm
    · exact Scales.answer rfl (reading_scale_one _).symm

theorem points_reprice (hroot : SquareRoots K) (s : Spec K) {bars : List (Bar K)}
    {points : List (Point K)} (h : s.points bars = .ok points) :
    s.points (bars.map (Bar.reprice c)) = .ok (points.map (Point.scale (s.kind.factor c))) := by
  cases s with
  | windowed w n =>
    cases w with
    | sma => exact (simpleAverage_scales c n).run h
    | ema => exact (exponentialAverage_scales c n).run h
    | wma => exact (weightedAverage_scales c n).run h
    | rsi => exact (strengthIndex_scales hc n).run h
    | roc => exact (rateOfChange_scales hc n).run h
    | atr => exact (averageTrueRange_scales hc n).run h
    | stddev => exact (standardDeviation_scales hc hroot n).run h
  | obv => exact (onBalanceVolume_scales hc).run h
  | vwap => exact (volumeWeightedPrice_scales c).run h
  | macd fast slow signal => exact (convergence_scales c fast slow signal).run h
  | stochastic kPeriod dPeriod => exact (stochastic_scales hc kPeriod dPeriod).run h
  | bollinger n multiplier => exact (bollinger_scales hc hroot n multiplier).run h
  | pivot => exact (pivots_scales c).run h

end Exact

end BarReplay
