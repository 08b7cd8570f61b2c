import Mathlib.Algebra.BigOperators.Ring.List
import Mathlib.Algebra.Order.Field.Basic
import Mathlib.Tactic.Positivity
import Mathlib.Tactic.Ring
import BarReplay.Proofs.Indicator.Bounds
import BarReplay.Proofs.Indicator.Strength

namespace BarReplay

section Units

variable {K : Type} [Mul K]

-- A bar with its prices in a unit of which `c` make one of the old. Shares are counted as before.
def Bar.reprice (c : K) (b : Bar K) : Bar K :=
  { b with opening := c * b.opening, high := c * b.high, low := c * b.low, close := c * b.close }

theorem Bar.map_reprice (c : K) (f : Bar K → K) (h : ∀ b, f (b.reprice c) = c * f b)
    (bars : List (Bar K)) : (bars.map (Bar.reprice c)).map f = (bars.map f).map (c * ·) := by
  rw [List.map_map, List.map_map]
  exact List.map_congr_left fun b _ => h b

namespace Indicator

def Moment.reprice (c : K) (m : Moment K) : Moment K :=
  ⟨m.earlier.map (Bar.reprice c), m.bar.reprice c⟩

namespace Moment

variable (c : K) (m : Moment K) (n : Nat)

theorem bar_reprice : (m.reprice c).bar = m.bar.reprice c :=
  rfl

theorem close_reprice : (m.reprice c).bar.close = c * m.bar.close :=
  rfl

theorem index_reprice : (m.reprice c).index = m.index :=
  List.length_map _

theorem ago?_reprice : (m.reprice c).ago? n = (m.ago? n).map (Bar.reprice c) := by
  rw [ago?, ago?, ← List.getElem?_map]
  rfl

theorem window_reprice : (m.reprice c).window n = (m.window n).map (Bar.reprice c) := by
  rw [window, window, List.map_reverse, List.map_take]
  rfl

end Moment

-- The reading with every value multiplied.
def Reading.scale (k : K) : Reading K → Reading K
  | scalar v => scalar (k * v)
  | macd l s h => macd (k * l) (k * s) (k * h)
  | stochastic x y => stochastic (k * x) (k * y)
  | bollinger u m l => bollinger (k * u) (k * m) (k * l)
  | pivot p r1 r2 r3 s1 s2 s3 =>
    pivot (k * p) (k * r1) (k * r2) (k * r3) (k * s1) (k * s2) (k * s3)

theorem Reading.get?_scale (k : K) (r : Reading K) (f : Field) :
    (r.scale k).get? f = (r.get? f).map (k * ·) := by
  cases r <;> cases f <;> rfl

-- The point of the same day, as valid as before.
def Point.scale (k : K) (p : Point K) : Point K :=
  { p with reading := p.reading.scale k }

def Series.scale (k : K) (s : Series K) : Series K :=
  { s with points := s.points.map (Point.scale k) }

theorem Series.valueAt?_scale (k : K) (s : Series K) (index : Int) (f : Field) :
    (s.scale k).valueAt? index f = (s.valueAt? index f).map (k * ·) := by
  unfold valueAt?
  split
  · rfl
  · simp only [scale, List.getElem?_map]
    cases s.points[index.toNat]? with
    | none => rfl
    | some p =>
      simp only [Option.map_some, Point.scale, Reading.get?_scale]
      split <;> rfl

namespace Study

variable {σ : Type}

-- What a machine answers, with its state changed and its reading multiplied.
def rescale (k : K) (onState : σ → σ) (answer : σ × Bool × Reading K) : σ × Bool × Reading K :=
  (onState answer.1, answer.2.1, answer.2.2.scale k)

-- Shown bars in another unit, a machine does what it did, with its state in that unit and its
-- readings multiplied by `k`.
structure Scales (s : Study K σ) (c k : K) (onState : σ → σ) : Prop where
  start : ∀ state, s.start = .ok state → onState state = state
  step : ∀ state m,
    s.step (onState state) (m.reprice c) = (s.step state m).map (rescale k onState)

namespace Scales

variable {s : Study K σ} {c k : K} {onState : σ → σ}

theorem walk (h : s.Scales c k onState) {state : σ} {earlier bars : List (Bar K)}
    {points : List (Point K)} (hwalk : s.walk state earlier bars = .ok points) :
    s.walk (onState state) (earlier.map (Bar.reprice c)) (bars.map (Bar.reprice c)) =
      .ok (points.map (Point.scale k)) := by
  induction bars generalizing state earlier points with
  | nil =>
    cases hwalk
    rfl
  | cons b bars ih =>
    obtain ⟨answer, hstep, hwalk⟩ := except_bind_eq_ok.1 hwalk
    obtain ⟨rest, hrest, hwalk⟩ := except_bind_eq_ok.1 hwalk
    cases hwalk
    have hanswer := h.step state ⟨earlier, b⟩
    rw [hstep] at hanswer
    exact except_bind_eq_ok.2 ⟨_, hanswer, except_bind_eq_ok.2 ⟨_, ih hrest, rfl⟩⟩

theorem run (h : s.Scales c k onState) {bars : List (Bar K)} {points : List (Point K)}
    (hrun : s.run bars = .ok points) :
    s.run (bars.map (Bar.reprice c)) = .ok (points.map (Point.scale k)) := by
  obtain ⟨state, hstart, hwalk⟩ := except_bind_eq_ok.1 hrun
  have hrepriced := h.walk hwalk
  rw [h.start state hstart] at hrepriced
  exact except_bind_eq_ok.2 ⟨state, hstart, hrepriced⟩

-- It is enough to compare the states and the readings.
theorem answer {next next' : σ} {valid : Bool} {reading reading' : Reading K}
    (hnext : next' = onState next) (hreading : reading' = reading.scale k) :
    (.ok (next', valid, reading') : Except Fault _) =
      Except.map (rescale k onState) (.ok (next, valid, reading)) := by
  rw [hnext, hreading]
  rfl

end Scales

end Study

-- A running average of values in another unit.
def SeededAverage.scale (k : K) (s : SeededAverage K) : SeededAverage K :=
  ⟨s.seen, k * s.total, k * s.average⟩

-- The divisor counts bars.
def WeightedState.scale (k : K) (s : WeightedState K) : WeightedState K :=
  { s with weighted := k * s.weighted, total := k * s.total }

def ConvergenceState.scale (k : K) (s : ConvergenceState K) : ConvergenceState K :=
  { s with
    fast := s.fast.scale k
    slow := s.slow.scale k
    seed := k * s.seed
    signal := k * s.signal }

end Indicator

end Units

-- Square roots like those of the real numbers.
structure SquareRoots (K : Type) [Zero K] [Mul K] [LE K] [Roots K] : Prop where
  nonneg : ∀ x : K, 0 ≤ x → 0 ≤ Roots.sqrt x
  square : ∀ x : K, 0 ≤ x → Roots.sqrt x * Roots.sqrt x = x

namespace Exact

variable {K : Type} [Field K]

theorem mean_scale (k : K) (xs : List K) : mean (xs.map (k * ·)) = k * mean xs := by
  rw [mean, mean, List.sum_map_mul_left, List.length_map, List.map_id', mul_div_assoc]

theorem variance_scale (k : K) (xs : List K) : variance (xs.map (k * ·)) = k * k * variance xs := by
  rw [variance, variance, ← mean_scale, List.map_map, List.map_map, mean_scale]
  congr 1
  refine List.map_congr_left fun x _ => ?_
  simp only [Function.comp]
  ring

open Indicator

theorem reading_scale_one (r : Reading K) : r.scale 1 = r := by
  cases r <;> simp only [Reading.scale, one_mul]

theorem points_scale_one (points : List (Point K)) : points.map (Point.scale 1) = points := by
  have hpoint (p : Point K) : p.scale 1 = p := by rw [Point.scale, reading_scale_one]
  rw [funext hpoint, List.map_id']

variable [LinearOrder K] [FloorRing K] [Roots K]

-- Running averages that start at zero, add up and blend in any unit.

theorem empty_scale (k : K) : (SeededAverage.empty : SeededAverage K).scale k = .empty := by
  simp only [SeededAverage.scale, SeededAverage.empty]
  congr 1 <;> exact mul_zero k

theorem push_scale {k : K} {n : Nat} {blend : K → K → K}
    (hblend : ∀ a x, blend (k * a) (k * x) = k * blend a x) (s : SeededAverage K) (x : K) :
    (s.scale k).push n blend (k * x) = (s.push n blend x).scale k := by
  have htotal : k * s.total + k * x = k * (s.total + x) := (mul_add ..).symm
  unfold SeededAverage.push SeededAverage.scale
  split
  · exact congrArg₂ _ htotal (mul_zero k).symm
  · split
    · exact congrArg₂ _ htotal ((congrArg (· / (n : K)) htotal).trans (mul_div_assoc ..))
    · exact congrArg _ (hblend _ _)

theorem exponential_scale (k fraction a x : K) :
    SeededAverage.exponential fraction (k * a) (k * x) =
      k * SeededAverage.exponential fraction a x := by
  simp only [SeededAverage.exponential]
  ring

theorem wilder_scale (k : K) (n : Nat) (a x : K) :
    SeededAverage.wilder n (k * a) (k * x) = k * SeededAverage.wilder n a x := by
  simp only [wilder_eq]
  ring

-- Prices of a bar.

theorem typicalPrice_reprice (c : K) (b : Bar K) :
    (b.reprice c).typicalPrice = c * b.typicalPrice := by
  simp only [Bar.typicalPrice, Bar.reprice]
  ring

theorem floorPivots_reprice (c : K) (b : Bar K) :
    floorPivots (b.reprice c) = (floorPivots b).scale c := by
  simp only [floorPivots, Reading.scale, Bar.reprice, Amount.whole_exact]
  congr 1 <;> ring

variable [IsStrictOrderedRing K] {c : K} (hc : 0 < c)

include hc

theorem trueRange_reprice (b : Bar K) (previous : Option K) :
    (b.reprice c).trueRange (previous.map (c * ·)) = c * b.trueRange previous := by
  have hrange (x y : K) : c * x - c * y = c * (x - y) := (mul_sub ..).symm
  have habs (x y : K) : Amount.abs (c * x - c * y) = c * Amount.abs (x - y) := by
    change |c * x - c * y| = c * |x - y|
    rw [hrange, abs_mul, abs_of_pos hc]
  cases previous with
  | none => exact hrange _ _
  | some p =>
    simp only [Bar.trueRange, Option.map_some, Bar.reprice, habs, ← Amount.maximum_scale hc]
    exact congrArg₂ _ (hrange _ _) rfl

theorem gain_scale (x : K) : gain (c * x) = c * gain x := by
  rw [gain_eq, gain_eq, mul_max_of_nonneg _ _ hc.le, mul_zero]

theorem loss_scale (x : K) : loss (c * x) = c * loss x := by
  rw [loss_eq, loss_eq, mul_max_of_nonneg _ _ hc.le, mul_zero, mul_neg]

-- Shares of gains and places in a range have no unit: it cancels out, and what is zero in one unit
-- is zero in the other.

theorem relativeStrength_scale (g l : K) :
    relativeStrength (c * g) (c * l) = relativeStrength g l := by
  rw [relativeStrength_eq, relativeStrength_eq, mul_div_mul_left _ _ hc.ne']
  exact if_congr (mul_eq_zero_iff_left hc.ne') rfl rfl

theorem rangePosition_reprice (close : K) (window : List (Bar K)) :
    rangePosition (c * close) (window.map (Bar.reprice c)) = rangePosition close window := by
  cases window with
  | nil => rfl
  | cons b bars =>
    have hhighs := Bar.map_reprice c Bar.high (fun _ => rfl) bars
    have hlows := Bar.map_reprice c Bar.low (fun _ => rfl) bars
    have hhighest := Amount.maximum_scale hc b.high (bars.map Bar.high)
    have hlowest := Amount.minimum_scale hc b.low (bars.map Bar.low)
    simp only [rangePosition, List.map_cons, hhighs, hlows, Bar.reprice, hhighest, hlowest,
      Amount.same_iff]
    generalize Amount.maximum b.high (bars.map Bar.high) = highest
    generalize Amount.minimum b.low (bars.map Bar.low) = lowest
    have hspan : c * highest - c * lowest = c * (highest - lowest) := (mul_sub ..).symm
    have hplace : Amount.whole 100 * (c * close - c * lowest) =
        c * (Amount.whole 100 * (close - lowest)) := by rw [← mul_sub, mul_left_comm]
    rw [hspan, hplace, mul_div_mul_left _ _ hc.ne']
    exact if_congr (mul_eq_zero_iff_left hc.ne') rfl rfl

-- The variance is in squares of the unit, and its root in the unit again.
theorem sqrt_scale (hroot : SquareRoots K) {x : K} (hx : 0 ≤ x) :
    Roots.sqrt (c * c * x) = c * Roots.sqrt x := by
  have hscaled : 0 ≤ c * c * x := by positivity
  have hnonneg : 0 ≤ c * Roots.sqrt x := mul_nonneg hc.le (hroot.nonneg x hx)
  refine (mul_self_inj_of_nonneg (hroot.nonneg _ hscaled) hnonneg).1 ?_
  rw [hroot.square _ hscaled, mul_mul_mul_comm, hroot.square x hx]

theorem closeStats?_reprice (hroot : SquareRoots K) (n : Nat) (m : Moment K) :
    ∃ stats, closeStats? n m = .ok stats ∧
      closeStats? n (m.reprice c) = .ok (stats.map (Prod.map (c * ·) (c * ·))) := by
  refine ⟨_, closeStats?_eq n m, ?_⟩
  rw [closeStats?_eq, m.index_reprice, m.window_reprice]
  split
  · have hcloses := Bar.map_reprice c Bar.close (fun _ => rfl) (m.window n)
    simp only [hcloses, mean_scale, variance_scale, sqrt_scale hc hroot (variance_nonneg _)]
    rfl
  · rfl

end Exact

end BarReplay
