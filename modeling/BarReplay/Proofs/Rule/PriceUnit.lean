import Mathlib.Algebra.Order.Archimedean.Real.Basic
import Mathlib.Analysis.Real.Sqrt
import BarReplay.Proofs.Indicator.Divisions
import BarReplay.Proofs.Indicator.PriceUnit

namespace BarReplay

open Indicator

-- Whether an operand reads a price, or what is made of prices. Volumes and constants are none.
def Operand.inPrices {α : Type} : Operand α → Bool
  | price .volume | constant _ => false
  | price _ => true
  | reading s _ => s.kind.inPrices

section Charts

variable {K : Type} [Mul K] [One K] (c : K)

def Operand.factor (o : Operand K) : K :=
  if o.inPrices then c else 1

def Indicator.Table.reprice (t : Table K) : Table K :=
  t.map fun entry => (entry.1, entry.2.scale (entry.1.kind.factor c))

def Chart.reprice (chart : Chart K) : Chart K :=
  ⟨chart.bars.map (Bar.reprice c), chart.series.reprice c⟩

end Charts

theorem bothRead_map {α : Type} {r : α → α → Bool} {f : α → α} (h : ∀ x y, r (f x) (f y) = r x y)
    (x y : Option α) : bothRead r (x.map f) (y.map f) = bothRead r x y := by
  cases x with
  | none => rfl
  | some x =>
    cases y with
    | none => rfl
    | some y => exact h x y

theorem Indicator.Spec.kind_eq_of_same {α : Type} [Amount α] {s t : Spec α}
    (h : s.same t = true) : s.kind = t.kind := by
  obtain rfl | ⟨period, a, b, rfl, rfl, -⟩ := eq_or_bollinger_of_same h
  · rfl
  · rfl

namespace Exact

variable {K : Type} [Field K] [LinearOrder K] [FloorRing K] [Roots K] (c : K)

theorem reprice_concat (t : Table K) (s : Spec K) (series : Series K) :
    Table.reprice c (t ++ [(s, series)]) =
      t.reprice c ++ [(s, series.scale (s.kind.factor c))] :=
  List.map_append

theorem find?_reprice (t : Table K) (s : Spec K) :
    (t.reprice c).find? s = (t.find? s).map (Series.scale (s.kind.factor c)) := by
  simp only [Table.find?, Table.reprice, List.find?_map, Option.map_map]
  refine Option.map_congr fun entry hentry => ?_
  have hsame : entry.1.same s = true := by simpa using List.find?_some hentry
  exact congrArg (fun k => Series.scale (k.factor c) entry.2) (Spec.kind_eq_of_same hsame)

theorem price_reprice (f : PriceField) (b : Bar K) :
    f.of (b.reprice c) = (Operand.price f).factor c * f.of b := by
  cases f with
  | volume => exact (one_mul b.volume).symm
  | _ => rfl

theorem read?_reprice (chart : Chart K) (o : Operand K) (index : Int) :
    (chart.reprice c).read? o index = (chart.read? o index).map (o.factor c * ·) := by
  cases o with
  | constant x => exact congrArg some (one_mul x).symm
  | price f =>
    simp only [Chart.read?, Chart.reprice, List.getElem?_map]
    split
    · rfl
    · rw [Option.map_map, Option.map_map]
      exact congrArg (Option.map · _) (funext (price_reprice c f))
  | reading s f =>
    simp only [Chart.read?, Chart.reprice, find?_reprice]
    cases chart.series.find? s with
    | none => rfl
    | some series => exact series.valueAt?_scale _ index f

section Order

variable {c} [IsStrictOrderedRing K] (hc : 0 < c)

include hc

-- Multiplied by the same positive number, amounts stay in order.
theorem compare_reprice (chart : Chart K) {cmp : Comparison} (hcmp : cmp ≠ .equals)
    {left right : Operand K} (hkind : left.inPrices = right.inPrices) (index : Int) :
    (Rule.compare cmp left right).holds (chart.reprice c) index =
      (Rule.compare cmp left right).holds chart index := by
  have hfactor : right.factor c = left.factor c := by rw [Operand.factor, Operand.factor, hkind]
  have hpos : 0 < left.factor c := by
    unfold Operand.factor
    split
    · exact hc
    · exact one_pos
  have hless := bothRead_map (r := lessThan) (f := (left.factor c * ·)) fun x y =>
    decide_eq_decide.2 (mul_lt_mul_iff_right₀ hpos)
  have hmost := bothRead_map (r := atMost) (f := (left.factor c * ·)) fun x y =>
    decide_eq_decide.2 (mul_le_mul_iff_right₀ hpos)
  cases cmp with
  | equals => exact absurd rfl hcmp
  | _ =>
    simp only [Rule.holds, Rule.holdsBy, Comparison.holdsBy, read?_reprice, hfactor, hless, hmost]

theorem series_reprice (hroot : SquareRoots K) (s : Spec K) {bars : List (Bar K)}
    {series : Series K} (h : s.series bars = .ok series) :
    s.series (bars.map (Bar.reprice c)) = .ok (series.scale (s.kind.factor c)) := by
  obtain ⟨points, hpoints, h⟩ := except_bind_eq_ok.1 h
  cases h
  exact except_bind_eq_ok.2 ⟨_, points_reprice hc hroot s hpoints, rfl⟩

theorem get_reprice (hroot : SquareRoots K) {s : Spec K} {bars : List (Bar K)} {t next : Table K}
    {series : Series K} (h : t.get bars s = .ok (series, next)) :
    (t.reprice c).get (bars.map (Bar.reprice c)) s =
      .ok (series.scale (s.kind.factor c), next.reprice c) := by
  obtain ⟨hfind, rfl⟩ | ⟨hfind, hseries, rfl⟩ := Table.get_eq_ok_iff.1 h
  · exact Table.get_eq_ok_iff.2 (.inl ⟨by rw [find?_reprice, hfind]; rfl, rfl⟩)
  · exact Table.get_eq_ok_iff.2 (.inr ⟨by rw [find?_reprice, hfind]; rfl,
      series_reprice hc hroot s hseries, reprice_concat ..⟩)

-- With prices in another unit, of which `c` make one of the old, an indicator has the same points
-- with its values multiplied by `c`, or the very same points if they are no prices. So rules that
-- put prices, or what is none, in order hold where they did. Nothing here hangs on what a division
-- by zero gives, since there is none.
theorem price_unit_is_free (hroot : SquareRoots K) (bars : List (Bar K)) :
    (∀ s : Spec K, s.Valid → ∃ points, s.points bars = .ok points ∧
      (s.kind.inPrices = true →
        s.points (bars.map (Bar.reprice c)) = .ok (points.map (Point.scale c))) ∧
      (s.kind.inPrices = false → s.points (bars.map (Bar.reprice c)) = .ok points) ∧
      ∀ byZero, @Spec.points K (.dividing byZero) s bars = .ok points) ∧
    ∀ specs : List (Spec K), ∃ t t', Table.ofSpecs bars specs = .ok t ∧
      Table.ofSpecs (bars.map (Bar.reprice c)) specs = .ok t' ∧
      ∀ (cmp : Comparison) (left right : Operand K) (index : Int), cmp ≠ .equals →
        left.inPrices = right.inPrices →
        (Rule.compare cmp left right).holds ⟨bars.map (Bar.reprice c), t'⟩ index =
          (Rule.compare cmp left right).holds ⟨bars, t⟩ index := by
  constructor
  · intro s hs
    obtain ⟨points, hpoints⟩ := exists_points s bars
    have hrepriced := points_reprice hc hroot s hpoints
    refine ⟨points, hpoints, fun hprices => ?_, fun hprices => ?_, fun byZero => ?_⟩
    · rwa [Kind.factor, if_pos hprices] at hrepriced
    · rwa [Kind.factor, hprices, if_neg Bool.false_ne_true, points_scale_one] at hrepriced
    · rw [points_dividing byZero hs, hpoints]
  · intro specs
    have hseries : ∀ s ∈ specs, ∃ series, s.series bars = .ok series := by
      intro s _
      obtain ⟨points, hpoints⟩ := exists_points s bars
      exact ⟨_, except_bind_eq_ok.2 ⟨points, hpoints, rfl⟩⟩
    obtain ⟨t, ht⟩ := Table.exists_foldlM hseries []
    have hrepriced : Table.ofSpecs (bars.map (Bar.reprice c)) specs = .ok (t.reprice c) :=
      Table.foldlM_map (fun hget => ⟨_, get_reprice hc hroot hget⟩) ht
    exact ⟨t, t.reprice c, ht, hrepriced, fun cmp left right index hcmp hkind =>
      compare_reprice hc ⟨bars, t⟩ hcmp hkind index⟩

end Order

section Reals

@[reducible] noncomputable def realRoots : Roots ℝ :=
  { Roots.untaken with sqrt := Real.sqrt }

attribute [local instance] realRoots

-- The four days with prices that are real numbers.
noncomputable def inDollars : List (Bar ℝ) :=
  swinging.map fun b => ⟨b.date, b.opening, b.high, b.low, b.close, b.volume⟩

theorem price_unit_is_free_inCents :
    SquareRoots ℝ ∧ (0 : ℝ) < 100 ∧ (Spec.bollinger 3 (2 : ℝ)).Valid ∧
      (∃ points, (Spec.bollinger 3 2).points inDollars = .ok points ∧ points.length = 4 ∧
        (Spec.bollinger 3 2).points (inDollars.map (Bar.reprice 100)) =
          .ok (points.map (Point.scale 100))) ∧
      ∃ t t', Table.ofSpecs inDollars [.bollinger 3 2] = .ok t ∧
        Table.ofSpecs (inDollars.map (Bar.reprice 100)) [.bollinger 3 2] = .ok t' ∧
        ∀ index : Int,
          (Rule.compare .crossAbove (.price .close) (.reading (.bollinger 3 2) .upper)).holds
              ⟨inDollars.map (Bar.reprice 100), t'⟩ index =
            (Rule.compare .crossAbove (.price .close) (.reading (.bollinger 3 2) .upper)).holds
              ⟨inDollars, t⟩ index := by
  have hroot : SquareRoots ℝ := ⟨fun x _ => Real.sqrt_nonneg x, fun _ => Real.mul_self_sqrt⟩
  have hc : (0 : ℝ) < 100 := by norm_num
  have hs : (Spec.bollinger 3 (2 : ℝ)).Valid := ⟨by decide, rfl, not_lt.2 zero_le_two⟩
  obtain ⟨hindicators, hrules⟩ := price_unit_is_free hc hroot inDollars
  obtain ⟨points, hpoints, hrepriced, -, -⟩ := hindicators _ hs
  obtain ⟨t, t', ht, ht', hholds⟩ := hrules [.bollinger 3 2]
  exact ⟨hroot, hc, hs, ⟨points, hpoints, Spec.points_length _ hpoints, hrepriced rfl⟩,
    t, t', ht, ht', fun index => hholds _ _ _ index nofun rfl⟩

end Reals

end Exact

end BarReplay
