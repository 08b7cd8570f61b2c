import Mathlib.Algebra.Order.BigOperators.Group.List
import Mathlib.Algebra.Order.Field.Basic
import Mathlib.Algebra.Order.Floor.Ring
import Mathlib.Data.Rat.Floor
import Mathlib.Order.Interval.Set.Basic
import BarReplay.Proofs.Indicator.Smoothing
import BarReplay.Proofs.Indicator.Windows

namespace BarReplay

variable {K : Type} [Field K] [LinearOrder K] [FloorRing K] [Roots K]

namespace Exact

open Indicator

-- In a period of one there is only the last value.
theorem average_after_one (xs : List K) (x : K) :
    (SeededAverage.after 1 (SeededAverage.wilder 1) (xs ++ [x])).average = x := by
  rw [SeededAverage.after_concat]
  unfold SeededAverage.push
  rw [SeededAverage.after_seen, if_neg (by omega)]
  split
  · rename_i hlength
    rw [List.length_eq_zero_iff.1 (Nat.succ.inj hlength)]
    simp [SeededAverage.after, SeededAverage.empty, Amount.whole_exact]
  · simp [wilder_eq]

theorem relativeStrength_eq (g l : K) :
    relativeStrength g l = if l = 0 then 100 else 100 - 100 / (1 + g / l) := by
  simp only [relativeStrength, Amount.same_iff, Amount.whole_exact, Nat.cast_ofNat]

theorem gain_eq (c : K) : gain c = max c 0 := by
  unfold gain
  split
  · rename_i hc
    exact (max_eq_left hc.le).symm
  · rename_i hc
    exact (max_eq_right (not_lt.1 hc)).symm

theorem gain_nonneg (c : K) : 0 ≤ gain c :=
  gain_eq c ▸ le_max_right c 0

-- A quotient is what it was unless the divisor is zero,
theorem div_dividing (byZero : K → K) {x y : K} (hy : y ≠ 0) :
    @HDiv.hDiv K K K (@instHDiv K (Amount.dividing byZero).toDiv) x y = x / y :=
  if_neg hy

theorem whole_ne_zero {n : Nat} (hn : 1 ≤ n) : (Amount.whole n : K) ≠ 0 :=
  Nat.cast_ne_zero.2 (by omega)

-- and a period is not zero.
theorem div_whole_dividing (byZero : K → K) {n : Nat} (hn : 1 ≤ n) (x : K) :
    @HDiv.hDiv K K K (@instHDiv K (Amount.dividing byZero).toDiv) x
      (@Amount.whole K (.dividing byZero) n) = x / Amount.whole n :=
  div_dividing byZero (whole_ne_zero hn)

theorem push_dividing (byZero : K → K) {n : Nat} (hn : 1 ≤ n) (blend : K → K → K)
    (s : SeededAverage K) (x : K) :
    @SeededAverage.push K (.dividing byZero) n blend s x = s.push n blend x := by
  unfold SeededAverage.push
  split
  · rfl
  · split
    · exact congrArg _ (div_whole_dividing byZero hn _)
    · rfl

theorem wilder_dividing (byZero : K → K) {n : Nat} (hn : 1 ≤ n) :
    @SeededAverage.wilder K (.dividing byZero) n = SeededAverage.wilder n := by
  funext a x
  exact div_whole_dividing byZero hn _

variable [IsStrictOrderedRing K]

theorem loss_eq (c : K) : loss c = max (-c) 0 := by
  unfold loss
  split
  · rename_i hc
    exact (max_eq_left (neg_nonneg.2 hc.le)).symm
  · rename_i hc
    exact (max_eq_right (neg_nonpos.2 (not_lt.1 hc))).symm

theorem loss_nonneg (c : K) : 0 ≤ loss c :=
  loss_eq c ▸ le_max_right (-c) 0

theorem wilder_nonneg {n : Nat} {a x : K} (ha : 0 ≤ a) (hx : 0 ≤ x) :
    0 ≤ SeededAverage.wilder n a x := by
  rw [wilder_eq]
  positivity

-- From a period of two on the average before the new value counts for something.
theorem wilder_eq_zero_iff {n : Nat} (hn : 2 ≤ n) {a x : K} (ha : 0 ≤ a) (hx : 0 ≤ x) :
    SeededAverage.wilder n a x = 0 ↔ a = 0 ∧ x = 0 := by
  have hcount : (n : K) ≠ 0 := Nat.cast_ne_zero.2 (by omega)
  have hbefore : ((n - 1 : Nat) : K) ≠ 0 := Nat.cast_ne_zero.2 (by omega)
  rw [wilder_eq, div_eq_zero_iff, or_iff_left hcount, add_eq_zero_iff_of_nonneg (by positivity) hx,
    mul_eq_zero, or_iff_left hbefore]

-- Sums and averages of values that are not negative.
structure Nonneg (s : SeededAverage K) : Prop where
  total : 0 ≤ s.total
  average : 0 ≤ s.average

theorem Nonneg.push {s : SeededAverage K} (hs : Nonneg s) (n : Nat) {x : K} (hx : 0 ≤ x) :
    Nonneg (s.push n (SeededAverage.wilder n) x) := by
  have htotal := add_nonneg hs.total hx
  unfold SeededAverage.push
  split
  · exact ⟨htotal, le_rfl⟩
  · split
    · exact ⟨htotal, div_nonneg htotal (Nat.cast_nonneg n)⟩
    · exact ⟨hs.total, wilder_nonneg hs.average hx⟩

theorem nonneg_after (n : Nat) {xs : List K} (hxs : ∀ x ∈ xs, 0 ≤ x) :
    Nonneg (.after n (SeededAverage.wilder n) xs) :=
  List.foldlRecOn xs _ ⟨le_rfl, le_rfl⟩ fun _ hs x hx => hs.push n (hxs x hx)

theorem foldl_wilder_eq_zero_iff {n : Nat} (hn : 2 ≤ n) {a : K} (ha : 0 ≤ a) {xs : List K}
    (hxs : ∀ x ∈ xs, 0 ≤ x) :
    xs.foldl (SeededAverage.wilder n) a = 0 ↔ a = 0 ∧ ∀ x ∈ xs, x = 0 := by
  induction xs generalizing a with
  | nil => simp
  | cons x xs ih =>
    obtain ⟨hx, hxs⟩ := List.forall_mem_cons.1 hxs
    rw [List.foldl_cons, ih (wilder_nonneg ha hx) hxs, wilder_eq_zero_iff hn ha hx,
      List.forall_mem_cons, and_assoc]

-- A value that is not zero is never forgotten.
theorem average_after_eq_zero_iff {n : Nat} (hn : 2 ≤ n) {xs : List K} (hxs : ∀ x ∈ xs, 0 ≤ x)
    (hfull : n ≤ xs.length) :
    (SeededAverage.after n (SeededAverage.wilder n) xs).average = 0 ↔ ∀ x ∈ xs, x = 0 := by
  have hfirst : ∀ x ∈ xs.take n, 0 ≤ x := fun x hx => hxs x (List.mem_of_mem_take hx)
  have hcount : (n : K) ≠ 0 := Nat.cast_ne_zero.2 (by omega)
  have hseed : (xs.take n).sum / n = 0 ↔ ∀ x ∈ xs.take n, x = 0 := by
    rw [div_eq_zero_iff, or_iff_left hcount]
    exact ⟨fun h x hx => List.all_zero_of_le_zero_le_of_sum_eq_zero hfirst h hx, List.sum_eq_zero⟩
  rw [SeededAverage.average_after (by omega) hfull, Amount.sum_eq, Amount.whole_exact,
    foldl_wilder_eq_zero_iff hn (div_nonneg (List.sum_nonneg hfirst) (Nat.cast_nonneg n))
      fun x hx => hxs x (List.mem_of_mem_drop hx), hseed, ← List.forall_mem_append,
    List.take_append_drop]

-- The index is at its upper end without losses. With losses it is at its lower end if there are no
-- gains.
theorem relativeStrength_range {g l : K} (hg : 0 ≤ g) (hl : 0 ≤ l) :
    relativeStrength g l ∈ Set.Icc 0 100 ∧ (relativeStrength g l = 100 ↔ l = 0) ∧
      (relativeStrength g l = 0 ↔ g = 0 ∧ l ≠ 0) := by
  rw [relativeStrength_eq]
  by_cases hzero : l = 0
  · simp [hzero]
  · have hratio : 1 ≤ 1 + g / l := le_add_of_nonneg_right (div_nonneg hg hl)
    have hpos : (0 : K) < 100 / (1 + g / l) := by positivity
    have hle : 100 / (1 + g / l) ≤ 100 := div_le_self (by positivity) hratio
    rw [if_neg hzero]
    refine ⟨⟨sub_nonneg.2 hle, sub_le_self _ hpos.le⟩, ?_, ?_⟩
    · simp [hzero, hpos.ne']
    · rw [sub_eq_zero, eq_div_iff (by positivity), mul_add, mul_one, add_eq_left, mul_eq_zero,
        div_eq_zero_iff]
      simp [hzero]

theorem relativeStrength_dividing (byZero : K → K) {g l : K} (hg : 0 ≤ g) (hl : 0 ≤ l) :
    @relativeStrength K (.dividing byZero) g l = relativeStrength g l := by
  by_cases hzero : l = 0
  · have hsame : Amount.same l 0 = true := Amount.same_iff.2 hzero
    exact (if_pos hsame).trans (if_pos hsame).symm
  · have hsame : ¬ Amount.same l 0 = true := fun h => hzero (Amount.same_iff.1 h)
    have hratio : 1 + g / l ≠ 0 := by positivity
    refine (if_neg hsame).trans (Eq.trans ?_ (if_neg hsame).symm)
    change (Amount.whole 100 : K) - (if 1 + (if l = 0 then byZero g else g / l) = 0 then _
      else Amount.whole 100 / (1 + (if l = 0 then byZero g else g / l))) = _
    rw [if_neg hzero, if_neg hratio]

theorem strengthIndex_follows (byZero : K → K) {n : Nat} (hn : 1 ≤ n) :
    (@strengthIndex K (.dividing byZero) n).Follows (strengthIndex n)
      fun state => Nonneg state.1 ∧ Nonneg state.2 where
  start := rfl
  first h := by
    cases h
    exact ⟨⟨le_rfl, le_rfl⟩, ⟨le_rfl, le_rfl⟩⟩
  step {state} m hstate := by
    simp only [strengthIndex, push_dividing byZero hn, wilder_dividing byZero hn]
    cases m.ago? 1 with
    | none => rfl
    | some previous =>
      have hgains := hstate.1.push n (gain_nonneg (m.bar.close - previous.close))
      have hlosses := hstate.2.push n (loss_nonneg (m.bar.close - previous.close))
      have hsame := relativeStrength_dividing byZero hgains.average hlosses.average
      refine congrArg Except.ok (congrArg (Prod.mk _) (congrArg (Prod.mk _) ?_))
      exact congrArg Reading.scalar (if_congr Iff.rfl hsame rfl)
  next {state m next valid reading} hstate h := by
    simp only [strengthIndex] at h
    split at h
    · cases h
      exact hstate
    · cases h
      exact ⟨hstate.1.push n (gain_nonneg _), hstate.2.push n (loss_nonneg _)⟩

-- The close of a bar is below the close before it.
def Falls (bars : List (Bar K)) (j : Nat) : Prop :=
  ∃ previous b, bars[j - 1]? = some previous ∧ bars[j]? = some b ∧ b.close < previous.close

def Rises (bars : List (Bar K)) (j : Nat) : Prop :=
  ∃ previous b, bars[j - 1]? = some previous ∧ bars[j]? = some b ∧ previous.close < b.close

theorem nonneg_averageMove (n : Nat) {measure : K → K} (hmeasure : ∀ c, 0 ≤ measure c)
    (shown : List (Bar K)) : Nonneg (averageMove n measure shown) :=
  nonneg_after n (List.forall_mem_map.2 fun c _ => hmeasure c)

-- What an average still knows of the changes: in a period of one there is only the last.
theorem averageMove_eq_zero_iff {n : Nat} (hn : 1 ≤ n) {measure : K → K}
    (hmeasure : ∀ c, 0 ≤ measure c) {shown : List (Bar K)} (hlong : n < shown.length) :
    (averageMove n measure shown).average = 0 ↔
      ∀ c ∈ (changes shown).drop (if n = 1 then (changes shown).length - 1 else 0),
        measure c = 0 := by
  have hlength := changes_length shown
  unfold averageMove
  split
  · rename_i hone
    subst hone
    obtain hnone | ⟨earlier, c, hchanges⟩ := List.eq_nil_or_concat' (changes shown)
    · rw [hnone, List.length_nil] at hlength
      omega
    · rw [hchanges, List.map_append, List.map_singleton, average_after_one, List.length_append,
        List.length_singleton, Nat.add_sub_cancel, List.drop_left, List.forall_mem_singleton]
  · rw [average_after_eq_zero_iff (by omega) (List.forall_mem_map.2 fun c _ => hmeasure c)
      (by rw [List.length_map, hlength]; omega), List.forall_mem_map, List.drop_zero]

-- The bars whose changes the index still knows.
def watched (n i : Nat) : Set Nat :=
  if n = 1 then {i} else Set.Icc 1 i

theorem mem_watched {n i j : Nat} (hi : 1 ≤ i) :
    j ∈ watched n i ↔ (if n = 1 then i - 1 else 0) < j ∧ j ≤ i := by
  unfold watched
  split
  · rw [Set.mem_singleton_iff]
    omega
  · rw [Set.mem_Icc]
    omega

theorem averageMove_take_eq_zero_iff {bars : List (Bar K)} {n i : Nat} (hn : 1 ≤ n) (hwarm : n ≤ i)
    (hi : i < bars.length) {measure : K → K} {p : K → Prop} (hmeasure : ∀ c, 0 ≤ measure c)
    (hp : ∀ c, measure c = 0 ↔ ¬ p c) :
    (averageMove n measure (bars.take (i + 1))).average = 0 ↔
      ∀ j ∈ watched n i, ¬ ∃ previous b,
        bars[j - 1]? = some previous ∧ bars[j]? = some b ∧ p (b.close - previous.close) := by
  have hlength : (bars.take (i + 1)).length = i + 1 := List.length_take_of_le hi
  have hknown := not_congr (exists_change_iff bars i (if n = 1 then i - 1 else 0) p)
  rw [averageMove_eq_zero_iff hn hmeasure (by omega), changes_length, hlength, Nat.add_sub_cancel]
  simpa only [hp, mem_watched (hn.trans hwarm), not_exists, not_and] using hknown

theorem averageGain_eq_zero_iff {bars : List (Bar K)} {n i : Nat} (hn : 1 ≤ n) (hwarm : n ≤ i)
    (hi : i < bars.length) : (averageMove n gain (bars.take (i + 1))).average = 0 ↔
      ∀ j ∈ watched n i, ¬ Rises bars j := by
  have hzero := averageMove_take_eq_zero_iff hn hwarm hi (p := (0 < ·)) gain_nonneg fun c => by
    rw [gain_eq, max_eq_right_iff, not_lt]
  simpa only [Rises, sub_pos] using hzero

theorem averageLoss_eq_zero_iff {bars : List (Bar K)} {n i : Nat} (hn : 1 ≤ n) (hwarm : n ≤ i)
    (hi : i < bars.length) : (averageMove n loss (bars.take (i + 1))).average = 0 ↔
      ∀ j ∈ watched n i, ¬ Falls bars j := by
  have hzero := averageMove_take_eq_zero_iff hn hwarm hi (p := (· < 0)) loss_nonneg fun c => by
    rw [loss_eq, max_eq_right_iff, neg_nonpos, not_lt]
  simpa only [Falls, sub_neg] using hzero

-- The index is between 0 and 100. It is 100 if no close fell and 0 if some fell and none rose,
-- among those it knows: all up to the bar, or with a period of one the last alone. Nothing hangs
-- on what a division by zero gives, since there is none.
theorem strength_index_range {bars : List (Bar K)} {n i : Nat} (hn : 1 ≤ n) (hwarm : n ≤ i)
    (hi : i < bars.length) :
    (∃ v, (Spec.windowed .rsi n).Gives bars i .value v ∧ v ∈ Set.Icc 0 100 ∧
      (v = 100 ↔ ∀ j ∈ watched n i, ¬ Falls bars j) ∧
      (v = 0 ↔ (∀ j ∈ watched n i, ¬ Rises bars j) ∧ ∃ j ∈ watched n i, Falls bars j)) ∧
    ∀ byZero, @Spec.series K (.dividing byZero) (.windowed .rsi n) bars =
      (Spec.windowed .rsi n).series bars := by
  have hlong : n < (bars.take (i + 1)).length := by
    rw [List.length_take_of_le hi]
    omega
  obtain ⟨r, hr, hgives⟩ := gives_of_tells (s := .windowed .rsi n) hn (fun _ => rfl)
    (strengthIndex_tells hn) hi hwarm
  rw [hr hlong] at hgives
  obtain ⟨hrange, hhundred, hzero⟩ := relativeStrength_range
    (nonneg_averageMove n gain_nonneg (bars.take (i + 1))).average
    (nonneg_averageMove n loss_nonneg (bars.take (i + 1))).average
  refine ⟨⟨_, hgives .value _ rfl, hrange, ?_, ?_⟩, fun byZero => ?_⟩
  · rw [hhundred, averageLoss_eq_zero_iff hn hwarm hi]
  · rw [hzero, Ne, averageGain_eq_zero_iff hn hwarm hi, averageLoss_eq_zero_iff hn hwarm hi]
    simp only [not_forall, not_not, exists_prop]
  · exact congrArg (· >>= _) ((strengthIndex_follows byZero hn).run bars)

section Rational

attribute [local instance] Roots.untaken

-- The last close rose, and with a period of one that is all the index knows. With a period of two
-- the fall before it counts as well.
theorem strength_index_range_swinging :
    3 < swinging.length ∧ (Spec.windowed .rsi 1).Gives swinging 3 .value 100 ∧
      ∃ v, (Spec.windowed .rsi 2).Gives swinging 3 .value v ∧ 0 < v ∧ v < 100 := by
  have hi : 3 < swinging.length := by decide
  have hfall : Falls swinging 2 := ⟨_, _, rfl, rfl, by decide⟩
  have hrise : Rises swinging 3 := ⟨_, _, rfl, rfl, by decide⟩
  have hnofall : ¬ Falls swinging 3 := by
    rintro ⟨previous, b, hprevious, hb, hlt⟩
    cases hprevious
    cases hb
    exact absurd hlt (by decide)
  obtain ⟨⟨last, hlast, -, hhundred, -⟩, -⟩ :=
    strength_index_range (n := 1) (by decide) (by decide) hi
  obtain ⟨⟨v, hv, ⟨hlow, hhigh⟩, hfalls, hrises⟩, -⟩ :=
    strength_index_range (n := 2) (by decide) (by decide) hi
  have hends : 0 ≠ v ∧ v ≠ 100 :=
    ⟨fun h => (hrises.1 h.symm).1 3 ⟨by decide, by decide⟩ hrise,
      fun h => hfalls.1 h 2 ⟨by decide, by decide⟩ hfall⟩
  rw [hhundred.2 fun j hj => hj ▸ hnofall] at hlast
  exact ⟨hi, hlast, v, hv, lt_of_le_of_ne hlow hends.1, lt_of_le_of_ne hhigh hends.2⟩

end Rational

end Exact

end BarReplay
