import Mathlib.Algebra.BigOperators.Ring.List
import Mathlib.Data.List.Induction
import Mathlib.Data.Rat.Floor
import BarReplay.Machine
import BarReplay.Proofs.Amount.Exact

namespace BarReplay

variable {K : Type} [Field K] [LinearOrder K] [FloorRing K] [Roots K] {c : K}

-- The same in a currency of which a unit of the old one makes `c`.

def EquityPoint.scale (c : K) (x : EquityPoint K) : EquityPoint K :=
  { x with equity := c * x.equity }

def ClosedTrade.scale (c : K) (t : ClosedTrade K) : ClosedTrade K :=
  { t with pnl := c * t.pnl }

def Portfolio.scale (c : K) (p : Portfolio K) : Portfolio K :=
  { p with
    initialCapital := c * p.initialCapital
    trades := p.trades.map (·.scale c)
    curve := p.curve.map (·.scale c) }

-- Amounts of money change with the currency. Counts, fractions and dates do not.

def Drawdown.scale (c : K) (d : Drawdown K) : Drawdown K :=
  { d with
    amount := c * d.amount
    peakEquity := c * d.peakEquity
    troughEquity := c * d.troughEquity }

def TradeStats.scale (c : K) (s : TradeStats K) : TradeStats K :=
  { s with
    totalPnl := c * s.totalPnl
    averageWin := c * s.averageWin
    averageLoss := c * s.averageLoss
    largestWin := c * s.largestWin
    largestLoss := c * s.largestLoss }

def InstrumentStats.scale (c : K) (s : InstrumentStats K) : InstrumentStats K :=
  { s with stats := s.stats.scale c }

def Performance.scale (c : K) (m : Performance K) : Performance K :=
  { m with
    initialCapital := c * m.initialCapital
    finalEquity := c * m.finalEquity
    drawdown := m.drawdown.scale c
    trades := m.trades.scale c
    byInstrument := m.byInstrument.map (·.scale c) }

theorem sum_scale (xs : List K) : Amount.sum (xs.map (c * ·)) = c * Amount.sum xs := by
  simp only [Amount.sum, ← List.sum_eq_foldl]
  simpa using List.sum_map_mul_left xs (fun x => x) c

theorem Portfolio.finalEquity_scale (p : Portfolio K) :
    (p.scale c).finalEquity = c * p.finalEquity := by
  simp only [finalEquity, scale, List.getLast?_map]
  cases p.curve.getLast? <;> rfl

theorem TradeStats.meanOf_scale (total : K) (count : Nat) :
    meanOf (c * total) count = c * meanOf total count := by
  simp only [meanOf, mul_ite, mul_zero, mul_div_assoc]

theorem holdingDays_scale (trades : List (ClosedTrade K)) :
    (trades.map (·.scale c)).foldl (fun days t => days + t.holdingDays) 0 =
      trades.foldl (fun days t => days + t.holdingDays) 0 := by
  rw [List.foldl_map]
  rfl

def Bucket.scale (c : K) (b : Bucket K) : Bucket K :=
  ⟨b.first.scale c, b.later.map (·.scale c)⟩

theorem collect_scale (t : ClosedTrade K) (buckets : List (Bucket K)) :
    collect (t.scale c) (buckets.map (·.scale c)) = (collect t buckets).map (·.scale c) := by
  induction buckets with
  | nil => rfl
  | cons b buckets ih =>
    have hcodes : ((b.scale c).first.code == (t.scale c).code) = (b.first.code == t.code) := rfl
    by_cases hsame : b.first.code == t.code
    · rw [List.map_cons, collect, collect, hcodes, if_pos hsame, if_pos hsame]
      simp [Bucket.scale]
    · rw [List.map_cons, collect, collect, hcodes, if_neg hsame, if_neg hsame, ih, List.map_cons]

theorem bucketsOf_scale (trades : List (ClosedTrade K)) :
    bucketsOf (trades.map (·.scale c)) = (bucketsOf trades).map (·.scale c) := by
  induction trades using List.reverseRecOn with
  | nil => rfl
  | append_singleton trades t ih =>
    rw [List.map_append, bucketsOf, List.foldl_append]
    change collect (t.scale c) (bucketsOf (trades.map (·.scale c))) = _
    rw [ih, collect_scale, bucketsOf, bucketsOf, List.foldl_append]
    rfl

variable [IsStrictOrderedRing K]

theorem simpleReturn_scale (hc : 0 < c) (previous current : K) :
    Metrics.simpleReturn (c * previous) (c * current) = Metrics.simpleReturn previous current := by
  simp only [Metrics.simpleReturn, mul_pos_iff_of_pos_left hc, ← mul_sub,
    mul_div_mul_left _ _ hc.ne']

theorem dailyReturns_scale (hc : 0 < c) (curve : List (EquityPoint K)) :
    Metrics.dailyReturns (curve.map (·.scale c)) = Metrics.dailyReturns curve := by
  simp only [Metrics.dailyReturns, ← List.map_tail, List.zipWith_map, EquityPoint.scale,
    simpleReturn_scale hc]

namespace Drawdown

def State.scale (c : K) (s : State K) : State K :=
  ⟨s.peak.scale c, s.below, s.found.scale c⟩

theorem step_scale (hc : 0 < c) (s : State K) (x : EquityPoint K) :
    step (s.scale c) (x.scale c) = (step s x).scale c := by
  simp only [step, State.scale, EquityPoint.scale, scale, mul_le_mul_iff_right₀ hc,
    mul_lt_mul_iff_right₀ hc, mul_pos_iff_of_pos_left hc, ← mul_sub, mul_div_mul_left _ _ hc.ne']
  split
  · split <;> rfl
  · split <;> rfl

theorem foldl_scale (hc : 0 < c) (s : State K) (curve : List (EquityPoint K)) :
    (curve.map (·.scale c)).foldl step (s.scale c) = (curve.foldl step s).scale c := by
  rw [List.foldl_map]
  exact List.foldl_hom (State.scale c) fun s x => step_scale hc s x

theorem of_scale (hc : 0 < c) (curve : List (EquityPoint K)) :
    Drawdown.of (curve.map (·.scale c)) = (Drawdown.of curve).scale c := by
  cases curve with
  | nil => simp only [List.map_nil, of, scale, mul_zero]
  | cons x curve =>
    have hfold := foldl_scale hc ⟨x, 0, ⟨0, 0, 0, x.equity, x.equity, some x.date, some x.date⟩⟩
      (x :: curve)
    simp only [State.scale, scale, mul_zero] at hfold
    exact congrArg State.found hfold

end Drawdown

namespace TradeStats

theorem wins_scale (hc : 0 < c) (trades : List (ClosedTrade K)) :
    wins (trades.map (·.scale c)) = (wins trades).map (c * ·) := by
  have hwin (x : K) : 0 < c * x ↔ 0 < x := mul_pos_iff_of_pos_left hc
  simp only [wins, List.map_map, List.filter_map, Function.comp_def, ClosedTrade.scale, hwin]

theorem losses_scale (hc : 0 < c) (trades : List (ClosedTrade K)) :
    losses (trades.map (·.scale c)) = (losses trades).map (c * ·) := by
  have hloss (x : K) : c * x < 0 ↔ x < 0 := by
    rw [mul_neg_iff, and_iff_right hc, or_iff_left fun h => hc.not_gt h.1]
  simp only [losses, List.map_map, List.filter_map, Function.comp_def, ClosedTrade.scale, hloss,
    mul_neg]

theorem largest_scale (hc : 0 < c) (xs : List K) : largest (xs.map (c * ·)) = c * largest xs := by
  cases xs with
  | nil => simp only [List.map_nil, largest, mul_zero]
  | cons x xs => exact Amount.maximum_scale hc x xs

theorem profitFactorOf_scale (hc : 0 < c) (profit loss : K) :
    profitFactorOf (c * profit) (c * loss) = profitFactorOf profit loss := by
  simp only [profitFactorOf, mul_pos_iff_of_pos_left hc, mul_div_mul_left _ _ hc.ne']

theorem of_scale (hc : 0 < c) (trades : List (ClosedTrade K)) :
    TradeStats.of (trades.map (·.scale c)) = (TradeStats.of trades).scale c := by
  have hpnl : (trades.map (·.scale c)).map (·.pnl) = (trades.map (·.pnl)).map (c * ·) := by
    simp only [List.map_map, Function.comp_def, ClosedTrade.scale]
  simp only [TradeStats.of, scale, wins_scale hc, losses_scale hc, hpnl, sum_scale,
    largest_scale hc, meanOf_scale, profitFactorOf_scale hc, holdingDays_scale, List.length_map]

end TradeStats

theorem breakdown_scale (hc : 0 < c) (trades : List (ClosedTrade K)) :
    breakdown (trades.map (·.scale c)) = (breakdown trades).map (·.scale c) := by
  simp only [breakdown, bucketsOf_scale, List.map_map]
  refine List.map_congr_left fun b _ => ?_
  have htrades : (b.scale c).trades = b.trades.map (·.scale c) := rfl
  simp only [Function.comp_apply, htrades, TradeStats.of_scale hc]
  rfl

-- In exact arithmetic the currency does not matter: with the initial capital, the equity of every
-- point and the profit of every trade multiplied by the same positive amount, what is measured in
-- money is multiplied by it, and all else stays the same, overall and for each instrument.
theorem Portfolio.performance_scale (hc : 0 < c) (p : Portfolio K)
    (statistics : Metrics.Statistics K) (riskFreeRate : K) :
    (p.scale c).performance statistics riskFreeRate =
      (p.performance statistics riskFreeRate).map (·.scale c) := by
  have hreturn : (if 0 < (p.scale c).initialCapital then
        (p.scale c).finalEquity / (p.scale c).initialCapital - 1 else 0) =
      if 0 < p.initialCapital then p.finalEquity / p.initialCapital - 1 else 0 := by
    rw [finalEquity_scale]
    simp only [scale, mul_pos_iff_of_pos_left hc, mul_div_mul_left _ _ hc.ne']
  dsimp only [performance]
  rw [hreturn, finalEquity_scale]
  simp only [scale, List.length_map, dailyReturns_scale hc, Drawdown.of_scale hc,
    TradeStats.of_scale hc, breakdown_scale hc]
  cases Metrics.annualized
    (if 0 < p.initialCapital then p.finalEquity / p.initialCapital - 1 else 0) p.curve.length <;> rfl

section Rational

-- A root and a power that are the first steps towards the true ones.
@[reducible] def firstSteps : Roots ℚ where
  sqrt x := (x + 1) / 2
  power x y := .ok (1 + y * (x - 1))

attribute [local instance] firstSteps

def april (day : Nat) (h : 1 ≤ day ∧ day ≤ 30) : Date :=
  ⟨2021, 4, day, by decide, by decide, h⟩

-- A curve that falls by a quarter and recovers, with a gain, a loss and a trade that is neither.
def dipping : Portfolio ℚ where
  initialCapital := 100
  cash := 110
  positions := []
  trades :=
    [⟨"AAA", "X", 1, 10, 50, april 12 (by decide), april 13 (by decide), 40⟩,
      ⟨"BBB", "X", -2, 5, 20, april 12 (by decide), april 14 (by decide), -30⟩,
      ⟨"AAA", "X", 1, 10, 10, april 14 (by decide), april 15 (by decide), 0⟩]
  curve :=
    [⟨april 12 (by decide), 100⟩, ⟨april 13 (by decide), 140⟩, ⟨april 14 (by decide), 105⟩,
      ⟨april 15 (by decide), 110⟩]

theorem performance_scale_dipping :
    (0 : ℚ) < 3 / 2 ∧ ∃ m n : Performance ℚ,
      dipping.performance Machine.statistics (1 / 20) = .ok m ∧
      (dipping.scale (3 / 2)).performance Machine.statistics (1 / 20) = .ok n ∧
      n.totalReturn = m.totalReturn ∧ n.sharpe = m.sharpe ∧ n.sortino = m.sortino ∧
      m.sharpe ≠ 0 ∧ n.drawdown.fraction = 1 / 4 ∧ n.drawdown.amount = 105 / 2 ∧
      n.trades.profitFactor = m.trades.profitFactor ∧ n.trades.totalPnl = 15 := by
  have hseen : (dipping.performance Machine.statistics (1 / 20)).toOption.map
      (fun m : Performance ℚ =>
        (decide (m.sharpe ≠ 0), m.drawdown.fraction, m.drawdown.amount, m.trades.totalPnl)) =
      some (true, 1 / 4, 35, 10) := by
    decide +kernel
  cases hm : dipping.performance Machine.statistics (1 / 20) with
  | error f =>
    rw [hm] at hseen
    cases hseen
  | ok m =>
    have hc : (0 : ℚ) < 3 / 2 := by norm_num
    have hn := Portfolio.performance_scale hc dipping Machine.statistics (1 / 20)
    rw [hm] at hn hseen
    simp only [Except.toOption, Option.map_some, Option.some.injEq, Prod.mk.injEq,
      decide_eq_true_eq] at hseen
    obtain ⟨hsharpe, hfraction, hamount, htotal⟩ := hseen
    refine ⟨hc, m, m.scale (3 / 2), rfl, hn, rfl, rfl, rfl, hsharpe, hfraction, ?_, rfl, ?_⟩
    · simp only [Performance.scale, Drawdown.scale, hamount]
      norm_num
    · simp only [Performance.scale, TradeStats.scale, htotal]
      norm_num

end Rational

end BarReplay
