import BarReplay.Proofs.Indicator.Bounds
import BarReplay.Proofs.Amount.Order

namespace BarReplay

namespace Indicator

open Amount

variable {α : Type} [Amount α]

-- A place in the range of some bars: how far a close is above the lowest low, in hundredths of the
-- range. It is the middle if the range is empty, which it is between ends that are the same and
-- not infinite.
def PlacedIn (window : List (Bar α)) (close x : α) : Prop :=
  ∃ highest lowest, Highest highest (window.map Bar.high) ∧ Lowest lowest (window.map Bar.low) ∧
    x = if same highest lowest = true ∧ isFinite highest = true then whole 50
      else whole 100 * (close - lowest) / (highest - lowest)

theorem placedIn_rangePosition (hspans : Spans α) (close : α) {window : List (Bar α)}
    (hwindow : window ≠ []) : PlacedIn window close (rangePosition close window) := by
  obtain ⟨b, bars, rfl⟩ := List.exists_cons_of_ne_nil hwindow
  exact ⟨_, _, hspans.highest_maximum b.high (bars.map Bar.high),
    hspans.lowest_minimum b.low (bars.map Bar.low), if_congr (hspans.empty_iff _ _) rfl rfl⟩

-- The place of the last close in the range of the last bars.
def position (n : Nat) (shown : List (Bar α)) : α :=
  match shown.getLast? with
  | none => whole 50
  | some b => rangePosition b.close (shown.rtake n)

-- The places at each bar, from that one on that makes up a window.
def positions (n : Nat) (shown : List (Bar α)) : List α :=
  onBeginnings n (position n) shown

theorem position_concat (n : Nat) (shown : List (Bar α)) (b : Bar α) :
    position n (shown ++ [b]) = rangePosition b.close ((shown ++ [b]).rtake n) := by
  rw [position, List.getLast?_concat]

theorem position_take {bars : List (Bar α)} {n i : Nat} (hfull : n ≤ i + 1) {b : Bar α}
    (hb : bars[i]? = some b) :
    position n (bars.take (i + 1)) = rangePosition b.close ((bars.drop (i + 1 - n)).take n) := by
  obtain ⟨hi, -⟩ := List.getElem?_eq_some_iff.1 hb
  have hconcat : bars.take (i + 1) = bars.take i ++ [b] := by
    rw [List.take_add_one, hb, Option.toList_some]
  rw [← rtake_take hfull hi, hconcat, position_concat]

-- A stochastic keeps the places at all bars so far.
theorem stochastic_tells {k : Nat} (hk : 1 ≤ k) (d : Nat) :
    (stochastic k d : Study α _).Tells (fun shown state => state = (positions k shown).reverse)
      fun shown reading => k ≤ shown.length →
        let recent := (positions k shown).rtake d
        reading = .stochastic (position k shown) (sum recent / whole recent.length) where
  start h := by
    cases h
    rw [positions, onBeginnings_eq_nil (by rwa [List.length_nil]), List.reverse_nil]
  step {shown b state next valid reading} hstate h := by
    subst hstate
    have hlength : (shown ++ [b]).length = shown.length + 1 := by
      rw [List.length_append, List.length_singleton]
    simp only [stochastic, Moment.index_shown, Moment.window_shown, ← position_concat] at h
    split at h
    · rename_i hfull
      have hnext : position k (shown ++ [b]) :: (positions k shown).reverse =
          (positions k (shown ++ [b])).reverse := by
        rw [positions, positions, onBeginnings_concat hfull, List.reverse_append]
        rfl
      rw [hnext, ← List.rtake_eq_reverse_take_reverse] at h
      cases h
      exact ⟨rfl, fun _ => rfl⟩
    · rename_i hfull
      cases h
      refine ⟨?_, fun h => absurd (hlength ▸ h) hfull⟩
      rw [positions, positions, onBeginnings_eq_nil (by omega), onBeginnings_eq_nil (by omega)]

-- What a stochastic says at a bar, in terms of the places at the bars up to it.
theorem stochastic_reading {k d : Nat} (hk : 1 ≤ k) {bars : List (Bar α)} {points : List (Point α)}
    (h : (stochastic k d).run bars = .ok points) {i : Nat} {p : Point α}
    (hp : points[i]? = some p) (hfull : k ≤ i + 1) :
    let recent := ((positions k bars).take (i + 2 - k)).rtake d
    p.reading =
      .stochastic (position k (bars.take (i + 1))) (sum recent / whole recent.length) := by
  have hi := (Spec.exists_point_iff (.stochastic k d) h i).1 ⟨p, hp⟩
  have hplaces : positions k (bars.take (i + 1)) = (positions k bars).take (i + 2 - k) :=
    onBeginnings_take bars _
  rw [← hplaces]
  exact (stochastic_tells hk d).run h hp (by rwa [List.length_take_of_le hi])

-- The first values of the points are the places, which start with the first full window.
theorem stochastic_column {k d : Nat} (hk : 1 ≤ k) {bars : List (Bar α)} {points : List (Point α)}
    (h : (stochastic k d).run bars = .ok points) :
    (points.drop (k - 1)).map (·.reading.get? .k) = (positions k bars).map some := by
  refine Study.column_eq (Spec.points_length (.stochastic k d) h) hk fun i p hp hfull => ?_
  rw [stochastic_reading hk h hp hfull]
  rfl

-- Once there are as many places as a mean is made of, it is made of the last ones.
theorem recent_positions {k d i : Nat} {bars : List (Bar α)} (hi : i < bars.length)
    (hwarm : k + d ≤ i + 2) :
    let recent := ((positions k bars).drop (i + 2 - k - d)).take d
    recent.length = d ∧ ((positions k bars).take (i + 2 - k)).rtake d = recent := by
  have hplaces : (positions k bars).length = bars.length + 1 - k := onBeginnings_length _ _ _
  constructor
  · rw [List.length_take, List.length_drop]
    omega
  · exact rtake_take (by omega) (by omega)

-- The points of a stochastic over some bars. The first value of a point is the place of the close
-- in the bars that end there, as many as a window has, and the second one is the mean of the first
-- values of the points that end there. It is valid if there are so many.
structure OfWindows (k d : Nat) (bars : List (Bar α)) (points : List (Point α)) : Prop where
  place : ∀ i b, k ≤ i + 1 → bars[i]? = some b → ∃ p x, points[i]? = some p ∧
    p.reading.get? .k = some x ∧ PlacedIn ((bars.drop (i + 1 - k)).take k) b.close x
  valid : ∀ i p, points[i]? = some p → (p.valid = true ↔ k + d ≤ i + 2)
  mean : ∀ i p, points[i]? = some p → p.valid = true → ∃ recent, recent.length = d ∧
    ((points.drop (i + 1 - d)).take d).map (·.reading.get? .k) = recent.map some ∧
    p.reading.get? .d = some (sum recent / whole d)

theorem ofWindows_of_run (hspans : Spans α) {k d : Nat} (hk : 1 ≤ k) (hd : 1 ≤ d)
    {bars : List (Bar α)} {points : List (Point α)}
    (h : (stochastic k d).run bars = .ok points) : OfWindows k d bars points := by
  have hpoint := Spec.exists_point_iff (.stochastic k d) h
  have hvalid : ∀ i p, points[i]? = some p → (p.valid = true ↔ k + d ≤ i + 2) := by
    intro i p hp
    rw [((Spec.stochastic k d).points_warmUp ⟨hk, hd⟩ h hp).1]
    change k + d - 2 ≤ i ↔ _
    omega
  refine ⟨fun i b hfull hb => ?_, hvalid, fun i p hp hthere => ?_⟩
  · have hi : i < bars.length := (List.getElem?_eq_some_iff.1 hb).1
    obtain ⟨p, hp⟩ := (hpoint i).2 hi
    have hwindow : (bars.drop (i + 1 - k)).take k ≠ [] := by
      refine List.ne_nil_of_length_pos ?_
      rw [List.length_take, List.length_drop]
      omega
    refine ⟨p, position k (bars.take (i + 1)), hp, ?_, ?_⟩
    · rw [stochastic_reading hk h hp hfull]
      rfl
    · rw [position_take hfull hb]
      exact placedIn_rangePosition hspans b.close hwindow
  · have hi : i < bars.length := (hpoint i).1 ⟨p, hp⟩
    have hwarm := (hvalid i p hp).1 hthere
    obtain ⟨hfull, hrecent⟩ := recent_positions hi hwarm
    refine ⟨_, hfull, ?_, ?_⟩
    · have hindex : i + 1 - d = k - 1 + (i + 2 - k - d) := by omega
      rw [List.map_take, hindex, ← List.drop_drop, List.map_drop, stochastic_column hk h,
        ← List.map_drop, ← List.map_take]
    · rw [stochastic_reading hk h hp (by omega), hrecent, hfull]
      rfl

theorem exists_stochastic (k d : Nat) (bars : List (Bar α)) :
    ∃ points, (stochastic k d).run bars = .ok points :=
  Study.Total.run ⟨⟨[], rfl⟩, stochastic_answers k d⟩ bars

end Indicator

variable {K : Type} [Field K] [LinearOrder K] [FloorRing K] [Roots K]

namespace Exact

open Indicator

-- A division by the range is made only if that is not empty,
theorem rangePosition_dividing (byZero : K → K) (close : K) (window : List (Bar K)) :
    @rangePosition K (.dividing byZero) close window = rangePosition close window := by
  cases window with
  | nil => rfl
  | cons b bars =>
    let highest := Amount.maximum b.high (bars.map Bar.high)
    let lowest := Amount.minimum b.low (bars.map Bar.low)
    by_cases hempty : Amount.same (highest - lowest) 0 = true
    · exact (if_pos hempty).trans (if_pos hempty).symm
    · have hspan : highest - lowest ≠ 0 := fun h => hempty (Amount.same_iff.2 h)
      exact (if_neg hempty).trans ((if_neg hspan).trans (if_neg hempty).symm)

-- and a mean is made of one place at least.
theorem stochastic_follows (byZero : K → K) (k : Nat) {d : Nat} (hd : 1 ≤ d) :
    (@stochastic K (.dividing byZero) k d).Follows (stochastic k d) fun _ => True where
  start := rfl
  first _ := trivial
  step {state} m _ := by
    simp only [stochastic, rangePosition_dividing]
    generalize rangePosition m.bar.close (m.window k) = place
    have hrecent : (((place :: state).take d).reverse.length : K) ≠ 0 := by
      rw [List.length_reverse, List.length_take, List.length_cons]
      exact Nat.cast_ne_zero.2 (by omega)
    split
    · refine congrArg Except.ok (congrArg (Prod.mk _) (congrArg (Prod.mk _) ?_))
      exact congrArg (Reading.stochastic place) (if_neg hrecent)
    · rfl
  next _ _ := trivial

variable [IsStrictOrderedRing K]

theorem placedIn_mem_Icc {window : List (Bar K)} {b : Bar K} {x : K}
    (h : PlacedIn window b.close x) (hb : b ∈ window) (hclose : b.close ∈ Set.Icc b.low b.high) :
    x ∈ Set.Icc 0 100 := by
  obtain ⟨highest, lowest, ⟨-, hhighest⟩, ⟨-, hlowest⟩, rfl⟩ := h
  have habove : b.close ≤ highest :=
    hclose.2.trans (not_lt.1 (hhighest b.high (List.mem_map_of_mem hb)))
  have hbelow : lowest ≤ b.close :=
    (not_lt.1 (hlowest b.low (List.mem_map_of_mem hb))).trans hclose.1
  simp only [Amount.whole_exact, Nat.cast_ofNat]
  split
  · norm_num
  · rename_i hrange
    have hspan : 0 < highest - lowest := by
      refine sub_pos.2 (lt_of_le_of_ne (hbelow.trans habove) fun h => hrange ?_)
      exact ⟨Amount.same_iff.2 h.symm, rfl⟩
    rw [Set.mem_Icc, le_div_iff₀ hspan, div_le_iff₀ hspan]
    constructor
    · rw [zero_mul]
      exact mul_nonneg (by norm_num) (sub_nonneg.2 hbelow)
    · exact mul_le_mul_of_nonneg_left (sub_le_sub_right habove _) (by norm_num)

theorem position_mem_Icc {n : Nat} (hn : 1 ≤ n) {shown : List (Bar K)}
    (hshown : ∀ b ∈ shown, b.close ∈ Set.Icc b.low b.high) :
    position n shown ∈ Set.Icc 0 100 := by
  obtain rfl | ⟨earlier, b, rfl⟩ := List.eq_nil_or_concat' shown
  · change Amount.whole 50 ∈ Set.Icc (0 : K) 100
    rw [Amount.whole_exact]
    norm_num
  · obtain ⟨n, rfl⟩ := Nat.exists_eq_add_of_le' hn
    have hb : b ∈ (earlier ++ [b]).rtake (n + 1) := by
      rw [List.rtake_concat_succ]
      exact List.mem_append_right _ List.mem_cons_self
    have hplace := placedIn_rangePosition .exact b.close (List.ne_nil_of_mem hb)
    rw [position_concat]
    exact placedIn_mem_Icc hplace hb (hshown b (List.mem_append_right _ List.mem_cons_self))

theorem stochastic_mem_Icc {k d : Nat} (hk : 1 ≤ k) (hd : 1 ≤ d) {bars : List (Bar K)}
    (hbars : ∀ b ∈ bars, b.close ∈ Set.Icc b.low b.high) {points : List (Point K)}
    (h : (stochastic k d).run bars = .ok points) {i : Nat} {p : Point K}
    (hp : points[i]? = some p) (hfull : k ≤ i + 1) :
    ∃ x y, p.reading = .stochastic x y ∧ x ∈ Set.Icc 0 100 ∧ y ∈ Set.Icc 0 100 := by
  have hplaces : ∀ x ∈ positions k bars, x ∈ Set.Icc 0 100 :=
    List.forall_mem_map.2 fun shown hshown => position_mem_Icc hk fun b hb =>
      hbars b (((List.mem_inits _ _).1 (List.mem_of_mem_drop hshown)).subset hb)
  have hi := (Spec.exists_point_iff (.stochastic k d) h i).1 ⟨p, hp⟩
  have hrecent : ((positions k bars).take (i + 2 - k)).rtake d ≠ [] := by
    refine List.ne_nil_of_length_pos ?_
    rw [List.rtake, List.length_drop, List.length_take, positions, onBeginnings_length]
    omega
  refine ⟨_, _, stochastic_reading hk h hp hfull, ?_, ?_⟩
  · exact position_mem_Icc hk fun b hb => hbars b (List.mem_of_mem_take hb)
  · rw [Amount.sum_eq, Amount.whole_exact]
    exact mean_mem_Icc hrecent fun x hx =>
      hplaces x (List.mem_of_mem_take (List.mem_of_mem_drop hx))

-- A stochastic has a series over any bars, which says what was seen in its windows. Without
-- rounding its values are between 0 and 100 if every close is between the low and the high of its
-- day, and nothing hangs on what a division by zero gives, since there is none.
theorem stochastic_of_windows {k d : Nat} (hk : 1 ≤ k) (hd : 1 ≤ d) :
    (∀ bars : List (Bar Float), ∃ series, (Spec.stochastic k d).series bars = .ok series ∧
      OfWindows k d bars series.points) ∧
    ∀ bars : List (Bar K), ∃ series, (Spec.stochastic k d).series bars = .ok series ∧
      OfWindows k d bars series.points ∧
      ((∀ b ∈ bars, b.close ∈ Set.Icc b.low b.high) →
        ∀ i p, k ≤ i + 1 → series.points[i]? = some p →
          ∃ x y, p.reading = .stochastic x y ∧ x ∈ Set.Icc 0 100 ∧ y ∈ Set.Icc 0 100) ∧
      ∀ byZero, @Spec.series K (.dividing byZero) (.stochastic k d) bars = .ok series := by
  constructor
  · intro bars
    obtain ⟨points, hpoints⟩ := exists_stochastic k d bars
    exact ⟨_, except_bind_eq_ok.2 ⟨points, hpoints, rfl⟩, ofWindows_of_run .doubles hk hd hpoints⟩
  · intro bars
    obtain ⟨points, hpoints⟩ := exists_stochastic k d bars
    exact ⟨_, except_bind_eq_ok.2 ⟨points, hpoints, rfl⟩, ofWindows_of_run .exact hk hd hpoints,
      fun hbars i p hfull hp => stochastic_mem_Icc hk hd hbars hpoints hp hfull,
      fun byZero => except_bind_eq_ok.2
        ⟨points, ((stochastic_follows byZero k hd).run bars).trans hpoints, rfl⟩⟩

section Rational

attribute [local instance] Roots.untaken

-- The last three days range from 7 to 16, and the last close is 13.
theorem stochastic_of_windows_swinging :
    1 ≤ 3 ∧ 1 ≤ 2 ∧ (∀ b ∈ swinging, b.close ∈ Set.Icc b.low b.high) ∧
      ∃ series p y, (Spec.stochastic 3 2).series swinging = .ok series ∧
        series.points[3]? = some p ∧ p.valid = true ∧ p.reading = .stochastic (200 / 3) y ∧
        y ∈ Set.Icc 0 100 := by
  have hbars : ∀ b ∈ swinging, b.close ∈ Set.Icc b.low b.high := by decide
  obtain ⟨-, hexact⟩ := stochastic_of_windows (K := ℚ) (k := 3) (d := 2) (by decide) (by decide)
  obtain ⟨series, hseries, hwindows, hrange, -⟩ := hexact swinging
  obtain ⟨p, x, hp, hx, highest, lowest, hhighest, hlowest, hplace⟩ :=
    hwindows.place 3 (inSeptember 6 13 7 13 200) (by decide) rfl
  change Highest highest [16, 16, 13] at hhighest
  change Lowest lowest [10, 7, 7] at hlowest
  have hbounds : (∀ y ∈ ([16, 16, 13] : List ℚ), y ≤ 16) ∧ ∀ y ∈ ([10, 7, 7] : List ℚ), 7 ≤ y := by
    decide
  have hhighest : highest = 16 :=
    le_antisymm (hbounds.1 highest hhighest.1) (not_lt.1 (hhighest.2 16 (by decide)))
  have hlowest : lowest = 7 :=
    le_antisymm (not_lt.1 (hlowest.2 7 (by decide))) (hbounds.2 lowest hlowest.1)
  have hthird : x = 200 / 3 := by
    rw [hplace, hhighest, hlowest]
    decide +kernel
  obtain ⟨_, y, hreading, -, hy⟩ := hrange hbars 3 p (by decide) hp
  rw [hreading] at hx
  cases hx
  exact ⟨by decide, by decide, hbars, series, p, y, hseries, hp,
    (hwindows.valid 3 p hp).2 (by decide), hthird ▸ hreading, hy⟩

end Rational

-- An infinite price less itself is no number, so its range does not count as empty.
theorem boundless_price_not_in_middle :
    let b := dayOfJuly 10 (by decide) (1.0 / 0.0)
    Highest b.high ([b].map Bar.high) ∧ Lowest b.low ([b].map Bar.low) ∧
      Amount.same b.high b.low = true ∧
      ∃ x, (Spec.stochastic 1 1).Gives [b] 0 .k x ∧ Amount.same x (Amount.whole 50) = false := by
  intro b
  exact ⟨Spans.doubles.highest_maximum b.high [], Spans.doubles.lowest_minimum b.low [],
    by decide, rangePosition b.close [b], ⟨_, rfl, rfl⟩, by decide⟩

end Exact

end BarReplay
