import BarReplay.Proofs.Rule.Causal

namespace BarReplay.Indicator

variable {α σ : Type}

-- How many bars an indicator is shown before its first valid point.
def Spec.warmUp : Spec α → Nat
  | windowed .rsi n | windowed .roc n => n
  | windowed _ n | bollinger n _ => n - 1
  | macd fast slow signal => max fast slow + signal - 2
  | stochastic kPeriod dPeriod => kPeriod + dPeriod - 2
  | obv | vwap => 0
  | pivot => 1

-- The fields that a reading has a value for.
def Reading.fields : Reading α → List Field
  | scalar _ => [.value]
  | macd .. => [.line, .signal, .histogram]
  | stochastic .. => [.k, .d]
  | bollinger .. => [.upper, .middle, .lower]
  | pivot .. => [.pivot, .r1, .r2, .r3, .s1, .s2, .s3]

theorem Reading.get?_isSome_iff (r : Reading α) (f : Field) :
    (r.get? f).isSome = true ↔ f ∈ r.fields := by
  cases r <;> cases f <;> simp [get?, fields]

theorem Reading.get?_eq_none_iff (r : Reading α) (f : Field) :
    r.get? f = none ↔ f ∉ r.fields := by
  rw [← get?_isSome_iff, Bool.not_eq_true, Option.isSome_eq_false_iff, Option.isNone_iff_eq_none]

theorem Moment.ago?_eq_none_iff (m : Moment α) (n : Nat) : m.ago? n = none ↔ m.index < n := by
  rw [ago?, List.getElem?_eq_none_iff, List.length_cons, index]
  omega

theorem Moment.le_index_of_ago? {m : Moment α} {n : Nat} {b : Bar α} (h : m.ago? n = some b) :
    n ≤ m.index := by
  refine Nat.le_of_not_lt fun hlt => ?_
  rw [(m.ago?_eq_none_iff n).2 hlt] at h
  cases h

namespace Study

-- An indicator that is past its warm-up from a bar on and not before it. `After n` says of its
-- state what makes it so when `n` bars have been shown.
structure WarmsUp (s : Study α σ) (fields : List Field) (warmUp : Nat) (After : Nat → σ → Prop) :
    Prop where
  start : ∀ {state}, s.start = .ok state → After 0 state
  step : ∀ {state m next valid reading}, After m.index state →
    s.step state m = .ok (next, valid, reading) →
    After (m.index + 1) next ∧ (valid = true ↔ warmUp ≤ m.index) ∧ reading.fields = fields

namespace WarmsUp

variable {s : Study α σ} {fields : List Field} {warmUp : Nat} {After : Nat → σ → Prop}

theorem run (hs : s.WarmsUp fields warmUp After) {bars : List (Bar α)} {points : List (Point α)}
    (h : s.run bars = .ok points) {i : Nat} {p : Point α} (hp : points[i]? = some p) :
    (p.valid = true ↔ warmUp ≤ i) ∧ p.reading.fields = fields := by
  have hsays := s.run_says (fun shown => After shown.length)
    (fun shown valid reading =>
      (valid = true ↔ warmUp + 1 ≤ shown.length) ∧ reading.fields = fields)
    hs.start (fun {earlier b} _ _ _ _ hstate hstep => ?_) h hp
  · have hi : i < points.length := (List.getElem?_eq_some_iff.1 hp).1
    have hlength : points.length = bars.length := by
      simpa using congrArg List.length (s.run_dates h)
    rwa [List.length_reverse, List.length_take, Nat.min_eq_left (by omega),
      Nat.add_le_add_iff_right] at hsays
  · obtain ⟨hnext, hvalid, hfields⟩ := hs.step (m := ⟨earlier, b⟩) hstate hstep
    exact ⟨hnext, hvalid.trans Nat.add_le_add_iff_right.symm, hfields⟩

end WarmsUp

end Study

variable [Amount α]

namespace SeededAverage

@[simp] theorem push_seen (period : Nat) (blend : α → α → α) (a : SeededAverage α) (x : α) :
    (a.push period blend x).seen = a.seen + 1 := by
  unfold push
  split
  · rfl
  · split <;> rfl

omit [Amount α] in
theorem ready_iff (period : Nat) (a : SeededAverage α) :
    a.ready period = true ↔ period ≤ a.seen :=
  decide_eq_true_iff

-- An average is ready with the value that fills its period.
theorem ready_push_iff (period : Nat) (blend : α → α → α) (a : SeededAverage α) (x : α) :
    (a.push period blend x).ready period = true ↔ period - 1 ≤ a.seen := by
  rw [ready_iff, push_seen, Nat.sub_le_iff_le_add]

end SeededAverage

theorem full_iff (period index : Nat) :
    decide (period ≤ index + 1) = true ↔ period - 1 ≤ index :=
  decide_eq_true_iff.trans Nat.sub_le_iff_le_add.symm

-- A bar at which the warm-up is not over.
theorem invalid_iff {warmUp index : Nat} (h : index < warmUp) :
    false = true ↔ warmUp ≤ index :=
  ⟨fun hfalse => (nomatch hfalse), fun hle => absurd h (Nat.not_lt.2 hle)⟩

-- There are statistics of the closes from the bar on that fills the window.
theorem closeStats?_isSome_iff {period : Nat} {m : Moment α} {stats : Option (α × α)}
    (h : closeStats? period m = .ok stats) : stats.isSome = true ↔ period - 1 ≤ m.index := by
  unfold closeStats? at h
  split at h
  · rename_i hfull
    obtain ⟨found, -, h⟩ := except_bind_eq_ok.1 h
    cases h
    exact ⟨fun _ => Nat.sub_le_iff_le_add.2 hfull, fun _ => rfl⟩
  · rename_i hfull
    cases h
    exact invalid_iff (by omega)

theorem simpleAverage_warmsUp (period : Nat) :
    (simpleAverage period : Study α α).WarmsUp [.value] (period - 1) fun _ _ => True where
  start _ := trivial
  step {state m next valid reading} _ h := by
    cases h
    exact ⟨trivial, full_iff period m.index, rfl⟩

theorem exponentialAverage_warmsUp (period : Nat) :
    (exponentialAverage period : Study α _).WarmsUp [.value] (period - 1)
      fun n state => state.2.seen = n where
  start h := by
    obtain ⟨k, -, h⟩ := except_bind_eq_ok.1 h
    cases h
    rfl
  step {state m next valid reading} hseen h := by
    cases h
    refine ⟨by simp [hseen], ?_, rfl⟩
    rw [SeededAverage.ready_push_iff, hseen]

theorem weightedAverage_warmsUp (period : Nat) :
    (weightedAverage period : Study α _).WarmsUp [.value] (period - 1) fun _ _ => True where
  start _ := trivial
  step {state m next valid reading} _ h := by
    cases h
    exact ⟨trivial, full_iff period m.index, rfl⟩

-- The first bar has no change, so the averages have seen one value less than there are bars.
theorem strengthIndex_warmsUp {period : Nat} (hperiod : 1 ≤ period) :
    (strengthIndex period : Study α _).WarmsUp [.value] period
      fun n state => state.1.seen = n - 1 where
  start h := by
    cases h
    rfl
  step {state m next valid reading} hseen h := by
    obtain ⟨gains, losses⟩ := state
    change gains.seen = m.index - 1 at hseen
    simp only [strengthIndex] at h
    split at h
    · rename_i hago
      have hindex := (m.ago?_eq_none_iff 1).1 hago
      cases h
      exact ⟨hseen.trans (by omega), invalid_iff (by omega), rfl⟩
    · rename_i b hago
      have hindex := Moment.le_index_of_ago? hago
      cases h
      refine ⟨by rw [SeededAverage.push_seen]; omega, ?_, rfl⟩
      rw [SeededAverage.ready_push_iff]
      omega

theorem rateOfChange_warmsUp (period : Nat) :
    (rateOfChange period : Study α _).WarmsUp [.value] period fun _ _ => True where
  start _ := trivial
  step {state m next valid reading} _ h := by
    simp only [rateOfChange] at h
    split at h
    · rename_i hago
      cases h
      exact ⟨trivial, invalid_iff ((m.ago?_eq_none_iff period).1 hago), rfl⟩
    · rename_i b hago
      cases h
      exact ⟨trivial, by simpa using Moment.le_index_of_ago? hago, rfl⟩

theorem averageTrueRange_warmsUp (period : Nat) :
    (averageTrueRange period : Study α _).WarmsUp [.value] (period - 1)
      fun n state => state.seen = n where
  start h := by
    cases h
    rfl
  step {state m next valid reading} hseen h := by
    cases h
    refine ⟨by simp [hseen], ?_, rfl⟩
    rw [SeededAverage.ready_push_iff, hseen]

theorem standardDeviation_warmsUp (period : Nat) :
    (standardDeviation period : Study α _).WarmsUp [.value] (period - 1) fun _ _ => True where
  start _ := trivial
  step {state m next valid reading} _ h := by
    obtain ⟨stats, hstats, h⟩ := except_bind_eq_ok.1 h
    have hsome := closeStats?_isSome_iff hstats
    cases stats with
    | none =>
      cases h
      exact ⟨trivial, hsome, rfl⟩
    | some stats =>
      cases h
      exact ⟨trivial, hsome, rfl⟩

theorem onBalanceVolume_warmsUp :
    (onBalanceVolume : Study α α).WarmsUp [.value] 0 fun _ _ => True where
  start _ := trivial
  step {state m next valid reading} _ h := by
    cases h
    exact ⟨trivial, by simp, rfl⟩

theorem volumeWeightedPrice_warmsUp :
    (volumeWeightedPrice : Study α _).WarmsUp [.value] 0 fun _ _ => True where
  start _ := trivial
  step {state m next valid reading} _ h := by
    cases h
    exact ⟨trivial, by simp, rfl⟩

theorem convergence_warmsUp {fast slow signal : Nat} (hfast : 1 ≤ fast) (hsignal : 1 ≤ signal) :
    (convergence fast slow signal : Study α _).WarmsUp [.line, .signal, .histogram]
      (max fast slow + signal - 2) fun _ _ => True where
  start _ := trivial
  step {state m next valid reading} _ h := by
    simp only [convergence] at h
    split at h
    · cases h
      exact ⟨trivial, invalid_iff (by omega), rfl⟩
    · split at h
      · cases h
        exact ⟨trivial, invalid_iff (by omega), rfl⟩
      · split at h <;>
          · cases h
            exact ⟨trivial, by simp only [true_iff]; omega, rfl⟩

-- There is one range position for each bar that fills the window.
theorem stochastic_warmsUp {kPeriod dPeriod : Nat} (hk : 1 ≤ kPeriod) (hd : 1 ≤ dPeriod) :
    (stochastic kPeriod dPeriod : Study α _).WarmsUp [.k, .d] (kPeriod + dPeriod - 2)
      fun n positions => positions.length = n - (kPeriod - 1) where
  start h := by
    cases h
    exact (Nat.zero_sub _).symm
  step {positions m next valid reading} hlength h := by
    simp only [stochastic] at h
    split at h
    · rename_i hfull
      cases h
      refine ⟨by rw [List.length_cons]; omega, ?_, rfl⟩
      rw [decide_eq_true_iff, List.length_cons]
      omega
    · rename_i hfull
      cases h
      exact ⟨by omega, invalid_iff (by omega), rfl⟩

theorem bollinger_warmsUp (period : Nat) (multiplier : α) :
    (bollinger period multiplier).WarmsUp [.upper, .middle, .lower] (period - 1)
      fun _ _ => True where
  start _ := trivial
  step {state m next valid reading} _ h := by
    obtain ⟨stats, hstats, h⟩ := except_bind_eq_ok.1 h
    have hsome := closeStats?_isSome_iff hstats
    cases stats with
    | none =>
      cases h
      exact ⟨trivial, hsome, rfl⟩
    | some stats =>
      cases h
      exact ⟨trivial, hsome, rfl⟩

theorem pivots_warmsUp :
    (pivots : Study α _).WarmsUp [.pivot, .r1, .r2, .r3, .s1, .s2, .s3] 1 fun _ _ => True where
  start _ := trivial
  step {state m next valid reading} _ h := by
    simp only [pivots] at h
    split at h
    · rename_i hago
      cases h
      exact ⟨trivial, invalid_iff ((m.ago?_eq_none_iff 1).1 hago), rfl⟩
    · rename_i b hago
      cases h
      exact ⟨trivial, by simpa using Moment.le_index_of_ago? hago, rfl⟩

-- Every indicator is past its warm-up from the same bar on, whatever the bars are.
theorem Spec.points_warmUp (s : Spec α) (hs : s.Valid) {bars : List (Bar α)}
    {points : List (Point α)} (h : s.points bars = .ok points) {i : Nat} {p : Point α}
    (hp : points[i]? = some p) :
    (p.valid = true ↔ s.warmUp ≤ i) ∧ p.reading.fields = s.fields := by
  cases s with
  | windowed w n =>
    cases w with
    | sma => exact (simpleAverage_warmsUp n).run h hp
    | ema => exact (exponentialAverage_warmsUp n).run h hp
    | wma => exact (weightedAverage_warmsUp n).run h hp
    | rsi => exact (strengthIndex_warmsUp hs).run h hp
    | roc => exact (rateOfChange_warmsUp n).run h hp
    | atr => exact (averageTrueRange_warmsUp n).run h hp
    | stddev => exact (standardDeviation_warmsUp n).run h hp
  | obv => exact onBalanceVolume_warmsUp.run h hp
  | vwap => exact volumeWeightedPrice_warmsUp.run h hp
  | macd fast slow signal => exact (convergence_warmsUp hs.1 hs.2.2).run h hp
  | stochastic kPeriod dPeriod => exact (stochastic_warmsUp hs.1 hs.2).run h hp
  | bollinger n multiplier => exact (bollinger_warmsUp n multiplier).run h hp
  | pivot => exact pivots_warmsUp.run h hp

omit [Amount α] in
-- What is read at a bar is what its point holds, if it is past the warm-up.
theorem Series.valueAt?_of_point (series : Series α) {i : Nat} {p : Point α}
    (hp : series.points[i]? = some p) (f : Field) :
    series.valueAt? i f = if p.valid then p.reading.get? f else none := by
  have hindex : ¬ (i : Int) < 0 := by omega
  simp only [valueAt?, hindex, if_false, Int.toNat_natCast, hp]

omit [Amount α] in
theorem Series.valueAt?_of_outside (series : Series α) {index : Int}
    (h : index < 0 ∨ (series.points.length : Int) ≤ index) (f : Field) :
    series.valueAt? index f = none := by
  unfold valueAt?
  split
  · rfl
  · have hnone : series.points[index.toNat]? = none := by
      rw [List.getElem?_eq_none_iff]
      omega
    rw [hnone]

-- A series has one point for each bar, with its date, and its points are valid from the end of
-- the warm-up on. A field of the indicator can be read there, and nothing can be read elsewhere.
theorem series_aligned (s : Spec α) (hs : s.Valid) {bars : List (Bar α)} {series : Series α}
    (h : s.series bars = .ok series) :
    series.spec = s ∧ series.points.length = bars.length ∧
      series.points.map (·.date) = bars.map (·.date) ∧
      (∀ i p, series.points[i]? = some p → (p.valid = true ↔ s.warmUp ≤ i)) ∧
      ∀ (index : Int) (f : Field),
        (s.warmUp ≤ index ∧ index < bars.length ∧ f ∈ s.fields → ∃ p x,
          series.points[index.toNat]? = some p ∧ p.reading.get? f = some x ∧
          series.valueAt? index f = some x) ∧
        (¬ (s.warmUp ≤ index ∧ index < bars.length ∧ f ∈ s.fields) →
          series.valueAt? index f = none) := by
  have hdates := s.series_dates h
  have hlength : series.points.length = bars.length := by
    simpa using congrArg List.length hdates
  obtain ⟨points, hpoints, h⟩ := except_bind_eq_ok.1 h
  cases h
  refine ⟨rfl, hlength, hdates, fun i p hp => (s.points_warmUp hs hpoints hp).1,
    fun index f => ?_⟩
  by_cases hinside : 0 ≤ index ∧ index < bars.length
  · -- the bar has a point, and the warm-up and the fields say what is read there
    obtain ⟨i, rfl⟩ := Int.eq_ofNat_of_zero_le hinside.1
    have hi : i < points.length := by
      change points.length = bars.length at hlength
      omega
    have hp : points[i]? = some points[i] := List.getElem?_eq_getElem hi
    obtain ⟨hvalid, hfields⟩ := s.points_warmUp hs hpoints hp
    rw [Series.valueAt?_of_point ⟨s, points⟩ hp, Int.toNat_natCast]
    constructor
    · rintro ⟨hwarm, -, hf⟩
      obtain ⟨x, hx⟩ := Option.isSome_iff_exists.1 ((Reading.get?_isSome_iff _ f).2 (hfields ▸ hf))
      have hv : points[i].valid = true := hvalid.2 (Int.ofNat_le.1 hwarm)
      exact ⟨points[i], x, hp, hx, by rw [hv, if_pos rfl, hx]⟩
    · intro hnot
      by_cases hv : points[i].valid = true
      · have hf : f ∉ points[i].reading.fields := fun hf =>
          hnot ⟨Int.ofNat_le.2 (hvalid.1 hv), hinside.2, hfields ▸ hf⟩
        rw [if_pos hv]
        exact (Reading.get?_eq_none_iff _ f).2 hf
      · rw [if_neg hv]
  · constructor
    · rintro ⟨hwarm, hlast, -⟩
      exact absurd ⟨by omega, hlast⟩ hinside
    · intro _
      change points.length = bars.length at hlength
      exact Series.valueAt?_of_outside ⟨s, points⟩ (by simp only; omega) f

-- With the slow average in front and a signal of one value, the warm-up of four bars ends at
-- the third.
theorem series_aligned_climb : ∃ series, (Spec.macd 3 2 1).series climb = .ok series ∧
    (Spec.macd (α := Float) 3 2 1).Valid ∧ series.points.length = 4 ∧
    series.valueAt? 1 .line = none ∧ (series.valueAt? 2 .line).isSome = true ∧
    series.valueAt? 2 .value = none ∧ series.valueAt? 4 .line = none := by
  have hvalid : (Spec.macd (α := Float) 3 2 1).Valid := ⟨by decide, by decide, by decide⟩
  have hseries : (Spec.macd 3 2 1).series climb =
      .ok (((Spec.macd 3 2 1).series climb).toOption.getD ⟨.obv, []⟩) :=
    except_eq_ok_getD (by decide) _
  obtain ⟨-, hlength, -, -, hread⟩ := series_aligned _ hvalid hseries
  obtain ⟨p, x, -, -, hx⟩ := (hread 2 .line).1 (by decide)
  exact ⟨_, hseries, hvalid, hlength, (hread 1 .line).2 (by decide), by rw [hx]; rfl,
    (hread 2 .value).2 (by decide), (hread 4 .line).2 (by decide)⟩

end BarReplay.Indicator
