import BarReplay.Proofs.Indicator.Causal
import BarReplay.Rule.Evaluation

namespace BarReplay

open Indicator

variable {α : Type} [Amount α]

-- The first bars of a chart, with as much of its series.
def Chart.cut (n : Nat) (c : Chart α) : Chart α :=
  ⟨c.bars.take n, c.series.cut n⟩

omit [Amount α] in
theorem Indicator.Series.valueAt?_cut (s : Series α) {n : Nat} {index : Int} (h : index < n)
    (f : Field) : (s.cut n).valueAt? index f = s.valueAt? index f := by
  simp only [valueAt?, cut]
  split
  · rfl
  · rw [List.getElem?_take_of_lt (by omega)]

-- Before the cut, operands read the same.
theorem Chart.read?_cut (c : Chart α) {n : Nat} (o : Operand α) {index : Int} (h : index < n) :
    (c.cut n).read? o index = c.read? o index := by
  cases o with
  | constant x => rfl
  | price f =>
    simp only [read?, cut]
    split
    · rfl
    · rw [List.getElem?_take_of_lt (by omega)]
  | reading s f =>
    simp only [read?, cut, Table.find?_cut]
    cases c.series.find? s with
    | none => rfl
    | some series => exact series.valueAt?_cut h f

theorem natAll_congr {n : Nat} {p q : (i : Nat) → i < n → Bool} (h : ∀ i hi, p i hi = q i hi) :
    Nat.all n p = Nat.all n q := by
  congr
  funext i hi
  exact h i hi

theorem natAny_congr {n : Nat} {p q : (i : Nat) → i < n → Bool} (h : ∀ i hi, p i hi = q i hi) :
    Nat.any n p = Nat.any n q := by
  congr
  funext i hi
  exact h i hi

-- Readings by which the same comparisons hold, for the operands of some specs and at some bars.
structure Interchangeable (specs : List (Spec α)) (Near : Int → Prop) (read read' : Readings α) :
    Prop where
  compare : ∀ (c : Comparison) (l r : Operand α) (index : Int), l.specs ⊆ specs → r.specs ⊆ specs →
    Near index → c.holdsBy read l r index = c.holdsBy read' l r index
  between : ∀ (lower upper : α) (o : Operand α) (index : Int), o.specs ⊆ specs → Near index →
    isBetween lower upper (read o index) = isBetween lower upper (read' o index)
  back : ∀ (index : Int) (k : Nat), Near index → Near (index - k)

namespace Rule

section Congruence

variable {specs : List (Spec α)} {Near : Int → Prop} {read read' : Readings α}

mutual

-- Nothing but its comparisons decides whether a rule holds.
theorem holdsBy_congr (h : Interchangeable specs Near read read') (r : Rule α)
    (hr : r.specs ⊆ specs) (index : Int) (hnear : Near index) :
    r.holdsBy read index = r.holdsBy read' index := by
  cases r with
  | compare cmp left right =>
    obtain ⟨hleft, hright⟩ := List.append_subset.1 hr
    exact h.compare cmp left right index hleft hright hnear
  | between o l u => exact h.between l u o index hr hnear
  | all rs => exact holdAll_congr h rs hr index hnear
  | any rs => exact holdSome_congr h rs hr index hnear
  | not r => simp only [holdsBy, holdsBy_congr h r hr index hnear]
  | consecutive r m =>
    simp only [holdsBy]
    congr 1
    exact natAll_congr fun k _ => holdsBy_congr h r hr (index - k) (h.back index k hnear)
  | anyOf r m =>
    simp only [holdsBy]
    exact natAny_congr fun k _ => holdsBy_congr h r hr (index - k) (h.back index k hnear)

theorem holdAll_congr (h : Interchangeable specs Near read read') (rs : List (Rule α))
    (hrs : specsOfList rs ⊆ specs) (index : Int) (hnear : Near index) :
    holdAll read rs index = holdAll read' rs index := by
  cases rs with
  | nil => rfl
  | cons r rs =>
    obtain ⟨hr, hrs⟩ := List.append_subset.1 hrs
    simp only [holdAll, holdsBy_congr h r hr index hnear, holdAll_congr h rs hrs index hnear]

theorem holdSome_congr (h : Interchangeable specs Near read read') (rs : List (Rule α))
    (hrs : specsOfList rs ⊆ specs) (index : Int) (hnear : Near index) :
    holdSome read rs index = holdSome read' rs index := by
  cases rs with
  | nil => rfl
  | cons r rs =>
    obtain ⟨hr, hrs⟩ := List.append_subset.1 hrs
    simp only [holdSome, holdsBy_congr h r hr index hnear, holdSome_congr h rs hrs index hnear]

end

end Congruence

theorem interchangeable_cut (c : Chart α) (n : Nat) (specs : List (Spec α)) :
    Interchangeable specs (· < n) (c.cut n).read? c.read? where
  compare cmp l r index _ _ h := by
    have hprevious : index - 1 < n := by omega
    cases cmp <;> simp only [Comparison.holdsBy, c.read?_cut _ h, c.read?_cut _ hprevious]
  between lower upper o index _ h := by rw [c.read?_cut o h]
  back index k h := by omega

-- Whether a rule holds at a bar depends on that bar and earlier ones only.
theorem holds_cut (c : Chart α) (n : Nat) (r : Rule α) (index : Int) (h : index < n) :
    r.holds (c.cut n) index = r.holds c index :=
  holdsBy_congr (interchangeable_cut c n r.specs) r (List.Subset.refl _) index h

-- Over more bars, with the series over them, a rule holds at the bars there were when it did.
theorem holds_append {bars more : List (Bar α)} {specs : List (Spec α)} {t : Table α}
    (h : Table.ofSpecs (bars ++ more) specs = .ok t) :
    ∃ t', Table.ofSpecs bars specs = .ok t' ∧ ∀ (r : Rule α) (index : Int),
      index < bars.length → r.holds ⟨bars, t'⟩ index = r.holds ⟨bars ++ more, t⟩ index := by
  refine ⟨_, Table.ofSpecs_append h, fun r index hindex => ?_⟩
  have hcut : Chart.cut bars.length ⟨bars ++ more, t⟩ = ⟨bars, t.cut bars.length⟩ := by
    simp only [Chart.cut, List.take_left]
  rw [← hcut]
  exact holds_cut _ _ r index hindex

end Rule

-- Bars that follow change nothing at the bars there are: not the points of an indicator, its
-- dates and its warm-up included, and not whether a rule holds with the series that it reads.
theorem later_bars_change_nothing (bars more : List (Bar α)) :
    (∀ (s : Spec α) (series : Series α), s.series (bars ++ more) = .ok series →
      ∃ first, s.series bars = .ok first ∧ first.spec = series.spec ∧
        first.points = series.points.take bars.length ∧
        first.points.map (·.date) = bars.map (·.date)) ∧
    ∀ (r : Rule α) (t : Table α), Table.ofSpecs (bars ++ more) r.indicators = .ok t →
      ∃ t', Table.ofSpecs bars r.indicators = .ok t' ∧ ∀ index : Int, index < bars.length →
        r.holds ⟨bars, t'⟩ index = r.holds ⟨bars ++ more, t⟩ index := by
  constructor
  · intro s series h
    have hfirst := s.series_append h
    exact ⟨_, hfirst, rfl, rfl, s.series_dates hfirst⟩
  · intro r t h
    obtain ⟨t', ht', hholds⟩ := Rule.holds_append h
    exact ⟨t', ht', hholds r⟩

def dayOfJuly (day : Nat) (h : 1 ≤ day ∧ day ≤ 31) (close : Float) : Bar Float :=
  ⟨⟨2023, 7, day, by decide, by decide, h⟩, close, close, close, close, 1000.0⟩

-- Closes that rise for four days, and what they do then.
def climb : List (Bar Float) :=
  [dayOfJuly 10 (by decide) 10.0, dayOfJuly 11 (by decide) 11.0, dayOfJuly 12 (by decide) 12.0,
    dayOfJuly 13 (by decide) 13.0]

def descent : List (Bar Float) :=
  [dayOfJuly 14 (by decide) 9.0, dayOfJuly 17 (by decide) 8.0]

-- Two closes in a row above the average of two, and no line below its signal.
def rising : Rule Float :=
  .all [.consecutive (.compare .above (.price .close) (.reading (.windowed .sma 2) .value)) 2,
    .not (.compare .below (.reading (.macd 1 2 2) .line) (.reading (.macd 1 2 2) .signal))]

theorem later_bars_change_nothing_climb :
    ∃ series first t t', (Spec.macd 1 2 2).series (climb ++ descent) = .ok series ∧
      (Spec.macd 1 2 2).series climb = .ok first ∧ first.points = series.points.take 4 ∧
      Table.ofSpecs (climb ++ descent) rising.indicators = .ok t ∧
      Table.ofSpecs climb rising.indicators = .ok t' ∧
      rising.holds ⟨climb ++ descent, t⟩ 3 = true ∧ rising.holds ⟨climb, t'⟩ 3 = true := by
  have hseries : (Spec.macd 1 2 2).series (climb ++ descent) =
      .ok (((Spec.macd 1 2 2).series (climb ++ descent)).toOption.getD ⟨.obv, []⟩) :=
    except_eq_ok_getD (by decide) _
  have htable : Table.ofSpecs (climb ++ descent) rising.indicators =
      .ok ((Table.ofSpecs (climb ++ descent) rising.indicators).toOption.getD []) :=
    except_eq_ok_getD (by decide) _
  obtain ⟨hpoints, hrules⟩ := later_bars_change_nothing climb descent
  obtain ⟨first, hfirst, -, htake, -⟩ := hpoints _ _ hseries
  obtain ⟨t', ht', hsame⟩ := hrules rising _ htable
  have hholds : rising.holds
      ⟨climb ++ descent, (Table.ofSpecs (climb ++ descent) rising.indicators).toOption.getD []⟩ 3 =
        true := by decide +kernel
  exact ⟨_, first, _, t', hseries, hfirst, htake, htable, ht', hholds,
    (hsame 3 (by decide)).trans hholds⟩

end BarReplay
