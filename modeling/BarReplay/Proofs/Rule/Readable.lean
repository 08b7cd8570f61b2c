import BarReplay.Proofs.Decimal.Arithmetic
import BarReplay.Proofs.Rule.Causal

namespace BarReplay

open Amount Indicator

variable {α : Type} [Amount α]

namespace Rule

mutual

-- A rule without a negation anywhere.
def Positive : Rule α → Prop
  | compare .. | between .. => True
  | all rs | any rs => AllPositive rs
  | not _ => False
  | consecutive r _ | anyOf r _ => r.Positive

def AllPositive : List (Rule α) → Prop
  | [] => True
  | r :: rs => r.Positive ∧ AllPositive rs

end

end Rule

namespace Indicator.Table

-- What can be read in one table reads the same in the other.
def ReadableIn (t t' : Table α) : Prop :=
  ∀ (s : Spec α) (series : Series α) (index : Int) (f : Field) (x : α),
    t.find? s = some series → series.valueAt? index f = some x →
      ∃ series', t'.find? s = some series' ∧ series'.valueAt? index f = some x

-- Points that are valid in a series of one table are valid in the series of the other for the
-- same spec and say the same. Series of the first table may be missing, end early or be warming
-- up longer.
def PointsIn (t t' : Table α) : Prop :=
  ∀ (s : Spec α) (series : Series α) (i : Nat) (p : Point α),
    t.find? s = some series → series.points[i]? = some p → p.valid = true →
      ∃ series' p', t'.find? s = some series' ∧ series'.points[i]? = some p' ∧
        p'.valid = true ∧ p'.reading = p.reading

theorem cut_pointsIn (t : Table α) (n : Nat) : (t.cut n).PointsIn t := by
  intro s series i p hfind hp hvalid
  rw [find?_cut] at hfind
  obtain ⟨whole, hwhole, rfl⟩ := Option.map_eq_some_iff.1 hfind
  simp only [Series.cut, List.getElem?_take, Option.ite_none_right_eq_some] at hp
  exact ⟨whole, p, hwhole, hp.2, hvalid, rfl⟩

end Indicator.Table

omit [Amount α] in
theorem Indicator.Series.valueAt?_eq_some_iff (series : Series α) (index : Int) (f : Field)
    (x : α) : series.valueAt? index f = some x ↔ 0 ≤ index ∧
      ∃ p, series.points[index.toNat]? = some p ∧ p.valid = true ∧ p.reading.get? f = some x := by
  unfold valueAt?
  split
  · rename_i hneg
    exact ⟨fun h => (nomatch h), fun h => absurd h.1 (Int.not_le.2 hneg)⟩
  · rename_i hneg
    rw [and_iff_right (Int.not_lt.1 hneg)]
    cases series.points[index.toNat]? with
    | none => simp
    | some p => cases hvalid : p.valid <;> simp [hvalid]

theorem Indicator.Table.PointsIn.readableIn {t t' : Table α} (h : t.PointsIn t') :
    t.ReadableIn t' := by
  intro s series index f x hfind hread
  obtain ⟨hindex, p, hp, hvalid, hx⟩ := (series.valueAt?_eq_some_iff index f x).1 hread
  obtain ⟨series', p', hfind', hp', hvalid', hsame⟩ := h s series _ p hfind hp hvalid
  exact ⟨series', hfind', (series'.valueAt?_eq_some_iff index f x).2
    ⟨hindex, p', hp', hvalid', hsame ▸ hx⟩⟩

variable {bars : List (Bar α)} {t t' : Table α}

-- Constants and prices are read without a series.
theorem Chart.read?_of_readableIn (h : t.ReadableIn t') {o : Operand α} {index : Int} {x : α}
    (hread : Chart.read? ⟨bars, t⟩ o index = some x) :
    Chart.read? ⟨bars, t'⟩ o index = some x := by
  cases o with
  | constant y => exact hread
  | price f => exact hread
  | reading s f =>
    simp only [read?] at hread ⊢
    cases hfind : t.find? s with
    | none =>
      rw [hfind] at hread
      cases hread
    | some series =>
      rw [hfind] at hread
      obtain ⟨series', hfind', hread'⟩ := h s series index f x hfind hread
      rw [hfind']
      exact hread'

omit [Amount α] in
theorem bothRead_eq_true_iff {r : α → α → Bool} {x y : Option α} :
    bothRead r x y = true ↔ ∃ a b, x = some a ∧ y = some b ∧ r a b = true := by
  cases x <;> cases y <;> simp [bothRead]

-- A relation of two readings is false while one of them is missing, so it survives whatever else
-- becomes readable.
theorem bothRead_of_readableIn (h : t.ReadableIn t') {r : α → α → Bool} {left right : Operand α}
    {i j : Int}
    (hholds : bothRead r (Chart.read? ⟨bars, t⟩ left i) (Chart.read? ⟨bars, t⟩ right j) = true) :
    bothRead r (Chart.read? ⟨bars, t'⟩ left i) (Chart.read? ⟨bars, t'⟩ right j) = true := by
  obtain ⟨a, b, ha, hb, hr⟩ := bothRead_eq_true_iff.1 hholds
  exact bothRead_eq_true_iff.2
    ⟨a, b, Chart.read?_of_readableIn h ha, Chart.read?_of_readableIn h hb, hr⟩

theorem Comparison.holdsBy_of_readableIn (h : t.ReadableIn t') (c : Comparison)
    {left right : Operand α} {index : Int}
    (hholds : c.holdsBy (Chart.read? ⟨bars, t⟩) left right index = true) :
    c.holdsBy (Chart.read? ⟨bars, t'⟩) left right index = true := by
  cases c with
  | crossAbove =>
    simp only [holdsBy, Bool.and_eq_true] at hholds ⊢
    exact ⟨⟨hholds.1.1, bothRead_of_readableIn h hholds.1.2⟩, bothRead_of_readableIn h hholds.2⟩
  | crossBelow =>
    simp only [holdsBy, Bool.and_eq_true] at hholds ⊢
    exact ⟨⟨hholds.1.1, bothRead_of_readableIn h hholds.1.2⟩, bothRead_of_readableIn h hholds.2⟩
  | above => exact bothRead_of_readableIn h hholds
  | below => exact bothRead_of_readableIn h hholds
  | equals => exact bothRead_of_readableIn h hholds

theorem isBetween_of_readableIn (h : t.ReadableIn t') {lower upper : α} {o : Operand α}
    {index : Int} (hholds : isBetween lower upper (Chart.read? ⟨bars, t⟩ o index) = true) :
    isBetween lower upper (Chart.read? ⟨bars, t'⟩ o index) = true := by
  cases hread : Chart.read? ⟨bars, t⟩ o index with
  | none =>
    rw [hread] at hholds
    cases hholds
  | some x =>
    rw [hread] at hholds
    rw [Chart.read?_of_readableIn h hread]
    exact hholds

theorem natAll_eq_true_iff {n : Nat} {p : Nat → Bool} :
    (Nat.all n fun k _ => p k) = true ↔ ∀ k < n, p k = true := by
  rw [Nat.all_eq_finRange_all, List.all_eq_true]
  exact ⟨fun h k hk => h ⟨k, hk⟩ (List.mem_finRange _), fun h k _ => h k k.isLt⟩

theorem natAny_eq_true_iff {n : Nat} {p : Nat → Bool} :
    (Nat.any n fun k _ => p k) = true ↔ ∃ k < n, p k = true := by
  rw [Nat.any_eq_finRange_any, List.any_eq_true]
  exact ⟨fun ⟨k, _, h⟩ => ⟨k, k.isLt, h⟩, fun ⟨k, hk, h⟩ => ⟨⟨k, hk⟩, List.mem_finRange _, h⟩⟩

namespace Rule

mutual

theorem holdsBy_of_readableIn (h : t.ReadableIn t') (r : Rule α) (hr : r.Positive) (index : Int)
    (hholds : r.holdsBy (Chart.read? ⟨bars, t⟩) index = true) :
    r.holdsBy (Chart.read? ⟨bars, t'⟩) index = true := by
  cases r with
  | compare c left right => exact c.holdsBy_of_readableIn h hholds
  | between o lower upper => exact isBetween_of_readableIn h hholds
  | all rs => exact holdAll_of_readableIn h rs hr index hholds
  | any rs => exact holdSome_of_readableIn h rs hr index hholds
  | not r => exact hr.elim
  | consecutive r n =>
    simp only [holdsBy, Bool.and_eq_true, natAll_eq_true_iff] at hholds ⊢
    exact ⟨hholds.1, fun k hk => holdsBy_of_readableIn h r hr _ (hholds.2 k hk)⟩
  | anyOf r n =>
    simp only [holdsBy, natAny_eq_true_iff] at hholds ⊢
    obtain ⟨k, hk, hholds⟩ := hholds
    exact ⟨k, hk, holdsBy_of_readableIn h r hr _ hholds⟩

theorem holdAll_of_readableIn (h : t.ReadableIn t') (rs : List (Rule α)) (hrs : AllPositive rs)
    (index : Int) (hholds : holdAll (Chart.read? ⟨bars, t⟩) rs index = true) :
    holdAll (Chart.read? ⟨bars, t'⟩) rs index = true := by
  cases rs with
  | nil => rfl
  | cons r rs =>
    simp only [holdAll, Bool.and_eq_true] at hholds ⊢
    exact ⟨holdsBy_of_readableIn h r hrs.1 index hholds.1,
      holdAll_of_readableIn h rs hrs.2 index hholds.2⟩

theorem holdSome_of_readableIn (h : t.ReadableIn t') (rs : List (Rule α)) (hrs : AllPositive rs)
    (index : Int) (hholds : holdSome (Chart.read? ⟨bars, t⟩) rs index = true) :
    holdSome (Chart.read? ⟨bars, t'⟩) rs index = true := by
  cases rs with
  | nil => cases hholds
  | cons r rs =>
    simp only [holdSome, Bool.or_eq_true] at hholds ⊢
    exact hholds.imp (holdsBy_of_readableIn h r hrs.1 index)
      (holdSome_of_readableIn h rs hrs.2 index)

end

-- A rule without negations that holds goes on holding when more can be read, and so one that
-- holds while series are missing or warming up still holds once they are there.
theorem more_readings_keep_signals {r : Rule α} (hr : r.Positive) (bars : List (Bar α))
    (t t' : Table α) :
    (t.ReadableIn t' → ∀ index, r.holds ⟨bars, t⟩ index = true →
      r.holds ⟨bars, t'⟩ index = true) ∧
    (t.PointsIn t' → ∀ index, r.holds ⟨bars, t⟩ index = true →
      r.holds ⟨bars, t'⟩ index = true) :=
  ⟨fun h index => holdsBy_of_readableIn h r hr index,
    fun h index => holdsBy_of_readableIn h.readableIn r hr index⟩

-- A close above the average of two on one of the last two bars.
def lately : Rule Float :=
  .anyOf (.compare .above (.price .close) (.reading (.windowed .sma 2) .value)) 2

-- An average that ends a bar early.
theorem more_readings_keep_signals_climb :
    ∃ t, Table.ofSpecs climb lately.indicators = .ok t ∧ lately.Positive ∧
      (t.cut 3).PointsIn t ∧ lately.holds ⟨climb, t.cut 3⟩ 3 = true ∧
      lately.holds ⟨climb, t⟩ 3 = true := by
  have htable : Table.ofSpecs climb lately.indicators =
      .ok ((Table.ofSpecs climb lately.indicators).toOption.getD []) :=
    except_eq_ok_getD (by decide) _
  have hpositive : lately.Positive := trivial
  have hearly : lately.holds
      ⟨climb, ((Table.ofSpecs climb lately.indicators).toOption.getD []).cut 3⟩ 3 = true := by
    decide
  have hpoints := Table.cut_pointsIn ((Table.ofSpecs climb lately.indicators).toOption.getD []) 3
  exact ⟨_, htable, hpositive, hpoints, hearly,
    (more_readings_keep_signals hpositive climb _ _).2 hpoints 3 hearly⟩

-- Under a negation, what cannot be read is a signal.
example : ∃ t, Table.ofSpecs climb lately.indicators = .ok t ∧
    lately.not.holds ⟨climb, []⟩ 3 = true ∧ lately.not.holds ⟨climb, t⟩ 3 = false :=
  ⟨_, except_eq_ok_getD (by decide +kernel) [], by decide +kernel, by decide +kernel⟩

end Rule

section Sentinel

open Double

variable {nan : Float}

-- A comparison of doubles is false if one of them is no number.
theorem lessThan_of_isNaN {x y : Float} (h : x.isNaN = true ∨ y.isNaN = true) :
    lessThan x y = false := by
  refine decide_eq_false fun hlt => ?_
  obtain ⟨hx, hy⟩ := isNaN_of_lt hlt
  rw [hx, hy, or_self] at h
  cases h

theorem atMost_of_isNaN {x y : Float} (h : x.isNaN = true ∨ y.isNaN = true) :
    atMost x y = false := by
  refine decide_eq_false fun hle => ?_
  obtain ⟨hx, hy⟩ := isNaN_of_le hle
  rw [hx, hy, or_self] at h
  cases h

theorem closeTo_of_isNaN {x y : Float} (h : x.isNaN = true ∨ y.isNaN = true) :
    closeTo x y = false := by
  refine decide_eq_false fun hlt => ?_
  have hnumber : (x - y).abs.isNaN = false := (isNaN_of_lt hlt).1
  rw [isNaN_abs, isNaN_sub h] at hnumber
  cases hnumber

theorem bothRead_eq {r : Float → Float → Bool}
    (hr : ∀ {x y : Float}, x.isNaN = true ∨ y.isNaN = true → r x y = false)
    (hnan : nan.isNaN = true) (x y : Option Float) :
    bothRead r x y = r (x.getD nan) (y.getD nan) := by
  cases x with
  | none => exact (hr (.inl hnan)).symm
  | some x =>
    cases y with
    | none => exact (hr (.inr hnan)).symm
    | some y => rfl

theorem isBetween_eq (hnan : nan.isNaN = true) (lower upper : Float) (x : Option Float) :
    isBetween lower upper x = (atMost lower (x.getD nan) && atMost (x.getD nan) upper) := by
  cases x with
  | none => rw [Option.getD_none, atMost_of_isNaN (.inr hnan), Bool.false_and, isBetween]
  | some x => rfl

-- Readings that are all there, with something that is no number in the place of those that are
-- missing.
def Readings.filled (nan : Float) (read : Readings Float) : Readings Float :=
  fun o index => some ((read o index).getD nan)

theorem interchangeable_filled (hnan : nan.isNaN = true) (specs : List (Spec Float))
    (read : Readings Float) :
    Interchangeable specs (fun _ => True) read (Readings.filled nan read) where
  compare c l r index _ _ _ := by
    cases c <;>
      simp only [Comparison.holdsBy, Readings.filled, bothRead_eq lessThan_of_isNaN hnan,
        bothRead_eq atMost_of_isNaN hnan, bothRead_eq closeTo_of_isNaN hnan, Option.getD_some]
  between lower upper o index _ _ := by
    simp only [Readings.filled, isBetween_eq hnan, Option.getD_some]
  back _ _ _ := trivial

-- It is the same to a rule whether a reading is missing or is no number.
theorem Rule.holdsBy_filled (hnan : nan.isNaN = true) (read : Readings Float) (r : Rule Float)
    (index : Int) : r.holdsBy (Readings.filled nan read) index = r.holdsBy read index :=
  (holdsBy_congr (interchangeable_filled hnan r.specs read) r (List.Subset.refl _) index
    trivial).symm

end Sentinel

end BarReplay
