import Mathlib.Data.Rat.Floor
import Mathlib.Order.Bounds.Lattice
import BarReplay.Metrics.Drawdown
import BarReplay.Proofs.Amount.Order
import BarReplay.Proofs.Calendar.Dates

namespace BarReplay

section Runs

variable {B : ℕ → Prop} {n b d : ℕ}

-- The lengths of the runs among the first `n` numbers on which something holds throughout,
def runs (B : ℕ → Prop) (n : ℕ) : Set ℕ :=
  {k | ∃ a, a + k ≤ n ∧ ∀ j, a ≤ j → j < a + k → B j}

-- and of those that go on to the last of these numbers.
def lastRuns (B : ℕ → Prop) (n : ℕ) : Set ℕ :=
  {k | ∃ a, a + k = n ∧ ∀ j, a ≤ j → j < a + k → B j}

theorem runs_succ : runs B (n + 1) = runs B n ∪ lastRuns B (n + 1) := by
  ext k
  constructor
  · rintro ⟨a, hk, h⟩
    by_cases hlast : a + k = n + 1
    · exact .inr ⟨a, hlast, h⟩
    · exact .inl ⟨a, by omega, h⟩
  · rintro (⟨a, hk, h⟩ | ⟨a, hk, h⟩)
    · exact ⟨a, by omega, h⟩
    · exact ⟨a, hk.le, h⟩

theorem isGreatest_lastRuns_of (hn : B n) (h : IsGreatest (lastRuns B n) b) :
    IsGreatest (lastRuns B (n + 1)) (b + 1) := by
  obtain ⟨⟨a, hb, hrun⟩, hmost⟩ := h
  constructor
  · refine ⟨a, by omega, fun j haj hj => ?_⟩
    by_cases hlast : j = n
    · exact hlast ▸ hn
    · exact hrun j haj (by omega)
  · rintro k ⟨c, hk, hlonger⟩
    cases k with
    | zero => omega
    | succ k =>
      have hkb : k ≤ b := hmost ⟨c, by omega, fun j hcj hj => hlonger j hcj (by omega)⟩
      omega

theorem isGreatest_lastRuns_not (hn : ¬ B n) : IsGreatest (lastRuns B (n + 1)) 0 := by
  refine ⟨⟨n + 1, rfl, by omega⟩, ?_⟩
  rintro k ⟨a, hk, hrun⟩
  by_contra hpos
  exact hn (hrun n (by omega) (by omega))

theorem isGreatest_runs_succ (h : IsGreatest (runs B n) d)
    (hlast : IsGreatest (lastRuns B (n + 1)) b) : IsGreatest (runs B (n + 1)) (max d b) :=
  runs_succ ▸ h.union hlast

theorem isGreatest_runs_zero : IsGreatest (runs B 0) 0 := by
  refine ⟨⟨0, le_rfl, by omega⟩, ?_⟩
  rintro k ⟨a, hk, -⟩
  omega

end Runs

-- What each step keeps while a list is gone through holds at its end.
theorem foldl_indexed {β σ : Type} {f : σ → β → σ} {I : ℕ → σ → Prop} {xs : List β}
    (hstep : ∀ n s x, xs[n]? = some x → I n s → I (n + 1) (f s x)) (before after : List β)
    (hxs : xs = before ++ after) {s : σ} (hs : I before.length s) :
    I xs.length (after.foldl f s) := by
  induction after generalizing before s with
  | nil => simpa [hxs] using hs
  | cons x after ih =>
    have hx : xs[before.length]? = some x := by simp [hxs]
    have hnext : I (before ++ [x]).length (f s x) := by
      rw [List.length_append]
      exact hstep _ _ _ hx hs
    exact ih _ (by rw [hxs, ← List.append_cons]) hnext

namespace Drawdown

section Order

variable {α : Type} [Amount α] {proper : α → Prop} {curve : List (EquityPoint α)}
  {p x : EquityPoint α} {n i : ℕ}

-- The running peak at a place: the greatest equity up to there.
def IsPeak (curve : List (EquityPoint α)) (j : ℕ) (peak : α) : Prop :=
  (∃ k ≤ j, ∃ y, curve[k]? = some y ∧ y.equity = peak) ∧
    ∀ k ≤ j, ∀ y, curve[k]? = some y → y.equity ≤ peak

-- A point that is below the running peak at its place.
def Below (curve : List (EquityPoint α)) (j : ℕ) : Prop :=
  ∃ y peak, curve[j]? = some y ∧ IsPeak curve j peak ∧ y.equity < peak

-- The first of the highest among the first `n` points.
structure HighPoint (curve : List (EquityPoint α)) (n i : ℕ) (p : EquityPoint α) : Prop where
  point : curve[i]? = some p
  shown : i < n
  highest : ∀ k < n, ∀ y, curve[k]? = some y → y.equity ≤ p.equity
  first : ∀ k < i, ∀ y, curve[k]? = some y → y.equity < p.equity

omit [Amount α] in
theorem proper_of_getElem? (hproper : ∀ y ∈ curve, proper y.equity) {k : ℕ} {y : EquityPoint α}
    (hy : curve[k]? = some y) : proper y.equity :=
  hproper y (List.mem_of_getElem? hy)

omit [Amount α] in
-- What holds of a point and of all before it holds up to there.
theorem forall_upTo {P : EquityPoint α → Prop} (hx : curve[n]? = some x) (hlast : P x)
    (hbefore : ∀ k < n, ∀ y, curve[k]? = some y → P y) :
    ∀ k ≤ n, ∀ y, curve[k]? = some y → P y := by
  intro k hk y hy
  by_cases hsame : k = n
  · subst hsame
    exact Option.some.inj (hx.symm.trans hy) ▸ hlast
  · exact hbefore k (by omega) y hy

-- A point that is higher than all before it takes over.
theorem HighPoint.next (ho : TotallyOrdered proper) (hproper : ∀ y ∈ curve, proper y.equity)
    (hp : HighPoint curve n i p) (hx : curve[n]? = some x) :
    ∃ i', HighPoint curve (n + 1) i' (if p.equity < x.equity then x else p) := by
  have hpp := proper_of_getElem? hproper hp.point
  have hxp := proper_of_getElem? hproper hx
  by_cases hlt : p.equity < x.equity
  · rw [if_pos hlt]
    have hfirst : ∀ k < n, ∀ y, curve[k]? = some y → y.equity < x.equity := by
      intro k hk y hy
      have hyp := proper_of_getElem? hproper hy
      exact ho.lt_of_le_of_lt hyp hpp hxp (hp.highest k hk y hy) hlt
    have hbefore : ∀ k < n, ∀ y, curve[k]? = some y → y.equity ≤ x.equity := by
      intro k hk y hy
      exact ho.le_of_lt (proper_of_getElem? hproper hy) hxp (hfirst k hk y hy)
    have hhighest := forall_upTo hx (ho.le_refl hxp) hbefore
    exact ⟨n, hx, by omega, fun k hk => hhighest k (by omega), hfirst⟩
  · rw [if_neg hlt]
    have hxle : x.equity ≤ p.equity := (ho.not_lt_iff hpp hxp).1 hlt
    have hhighest := forall_upTo hx hxle hp.highest
    have hshown := hp.shown
    exact ⟨i, hp.point, by omega, fun k hk => hhighest k (by omega), hp.first⟩

-- A point that is lower leaves the peak where it is.
theorem HighPoint.isPeak (ho : TotallyOrdered proper) (hproper : ∀ y ∈ curve, proper y.equity)
    (hp : HighPoint curve n i p) (hx : curve[n]? = some x) (hlt : x.equity < p.equity) :
    IsPeak curve n p.equity := by
  have hxp := proper_of_getElem? hproper hx
  have hle := ho.le_of_lt hxp (proper_of_getElem? hproper hp.point) hlt
  exact ⟨⟨i, hp.shown.le, p, hp.point, rfl⟩, forall_upTo hx hle hp.highest⟩

theorem below_iff (ho : TotallyOrdered proper) (hproper : ∀ y ∈ curve, proper y.equity)
    (hp : HighPoint curve n i p) (hx : curve[n]? = some x) :
    Below curve n ↔ x.equity < p.equity := by
  have hxp := proper_of_getElem? hproper hx
  constructor
  · rintro ⟨y, peak, hy, ⟨⟨k, hk, z, hz, rfl⟩, -⟩, hlt⟩
    obtain rfl := Option.some.inj (hx.symm.trans hy)
    have hzp := proper_of_getElem? hproper hz
    by_cases hlast : k = n
    · subst hlast
      obtain rfl := Option.some.inj (hx.symm.trans hz)
      exact absurd (ho.le_refl hxp) (ho.not_le_of_lt hxp hxp hlt)
    · have hzle := hp.highest k (by omega) z hz
      exact ho.lt_of_lt_of_le hxp hzp (proper_of_getElem? hproper hp.point) hlt hzle
  · intro hlt
    exact ⟨x, p.equity, hx, hp.isPeak ho hproper hx hlt, hlt⟩

-- The state after the first `n` points: the peak, how long the curve has been below it, and the
-- longest time that it was below a peak.
structure Tracks (curve : List (EquityPoint α)) (n : ℕ) (s : State α) : Prop where
  peak : ∃ i, HighPoint curve n i s.peak
  below : IsGreatest (lastRuns (Below curve) n) s.below
  duration : IsGreatest (runs (Below curve) n) s.found.duration

theorem Tracks.step (ho : TotallyOrdered proper) (hproper : ∀ y ∈ curve, proper y.equity)
    {s : State α} (hs : Tracks curve n s) (hx : curve[n]? = some x) :
    Tracks curve (n + 1) (step s x) := by
  obtain ⟨i, hp⟩ := hs.peak
  have hpp := proper_of_getElem? hproper hp.point
  have hxp := proper_of_getElem? hproper hx
  have hnext := hp.next ho hproper hx
  have hbelow := below_iff ho hproper hp hx
  unfold Drawdown.step
  by_cases hle : s.peak.equity ≤ x.equity
  · rw [if_pos hle]
    have hnot : ¬ Below curve n := fun h => ho.not_le_of_lt hxp hpp (hbelow.1 h) hle
    have hlast := isGreatest_lastRuns_not hnot
    have hruns := isGreatest_runs_succ hs.duration hlast
    rw [Nat.max_zero] at hruns
    exact ⟨hnext, hlast, hruns⟩
  · rw [if_neg hle]
    have hlt : x.equity < s.peak.equity := ho.lt_of_not_le hxp hpp hle
    have hlast := isGreatest_lastRuns_of (hbelow.2 hlt) hs.below
    have hruns := isGreatest_runs_succ hs.duration hlast
    have hkept : ¬ s.peak.equity < x.equity := fun h => hle (ho.le_of_lt hpp hxp h)
    rw [if_neg hkept] at hnext
    dsimp only
    split
    · exact ⟨hnext, hlast, hruns⟩
    · exact ⟨hnext, hlast, hruns⟩

-- The state that a curve begins with.
def start (p : EquityPoint α) : State α :=
  ⟨p, 0, ⟨0, 0, 0, p.equity, p.equity, some p.date, some p.date⟩⟩

theorem of_cons (ho : TotallyOrdered proper) (hp : proper p.equity)
    (rest : List (EquityPoint α)) : of (p :: rest) = (rest.foldl step (start p)).found := by
  have hfirst : Drawdown.step (start p) p = start p := by
    have hle : (start p).peak.equity ≤ p.equity := ho.le_refl hp
    rw [Drawdown.step, if_pos hle, start, ite_self]
  rw [of, List.foldl_cons]
  exact congrArg (fun s => (rest.foldl Drawdown.step s).found) hfirst

theorem Tracks.start (ho : TotallyOrdered proper) (hp : proper p.equity)
    (rest : List (EquityPoint α)) : Tracks (p :: rest) 1 (start p) := by
  have hnot : ¬ Below (p :: rest) 0 := by
    rintro ⟨y, peak, hy, ⟨⟨k, hk, z, hz, rfl⟩, -⟩, hlt⟩
    obtain rfl : k = 0 := by omega
    cases hy
    cases hz
    exact ho.not_le_of_lt hp hp hlt (ho.le_refl hp)
  have hlast := isGreatest_lastRuns_not hnot
  refine ⟨⟨0, rfl, by omega, fun k hk y hy => ?_, by omega⟩, hlast,
    isGreatest_runs_succ isGreatest_runs_zero hlast⟩
  obtain rfl : k = 0 := by omega
  cases hy
  exact ho.le_refl hp

-- The duration is the length of the longest run of points below their peaks.
theorem isGreatest_duration (ho : TotallyOrdered proper)
    (hproper : ∀ y ∈ curve, proper y.equity) :
    IsGreatest (runs (Below curve) curve.length) (of curve).duration := by
  cases curve with
  | nil => exact isGreatest_runs_zero
  | cons p rest =>
    have hp := hproper p List.mem_cons_self
    have htracks := foldl_indexed (I := Tracks (p :: rest))
      (fun n s x hx hs => hs.step ho hproper hx) [p] rest rfl (Tracks.start ho hp rest)
    rw [of_cons ho hp]
    exact htracks.duration

end Order

section Exact

variable {K : Type} [Field K] [LinearOrder K] [FloorRing K] [Roots K]
  {curve : List (EquityPoint K)} {p x : EquityPoint K} {n i : ℕ} {f : K}

-- The fall at a place, as a fraction of the peak there. A peak that is not positive gives none.
def FallAt (curve : List (EquityPoint K)) (j : ℕ) (f : K) : Prop :=
  ∃ y peak, curve[j]? = some y ∧ IsPeak curve j peak ∧ 0 < peak ∧ f = (peak - y.equity) / peak

-- The falls at the first `n` points.
def falls (curve : List (EquityPoint K)) (n : ℕ) : Set K :=
  {f | ∃ j < n, FallAt curve j f}

theorem mem_falls_succ :
    f ∈ insert 0 (falls curve (n + 1)) ↔ f ∈ insert 0 (falls curve n) ∨ FallAt curve n f := by
  constructor
  · rintro (rfl | ⟨j, hj, h⟩)
    · exact .inl (Set.mem_insert _ _)
    · by_cases hlast : j = n
      · exact .inr (hlast ▸ h)
      · exact .inl (Set.mem_insert_of_mem _ ⟨j, by omega, h⟩)
  · rintro ((rfl | ⟨j, hj, h⟩) | h)
    · exact Set.mem_insert _ _
    · exact Set.mem_insert_of_mem _ ⟨j, by omega, h⟩
    · exact Set.mem_insert_of_mem _ ⟨n, by omega, h⟩

theorem IsPeak.unique {j : ℕ} {peak other : K} (h : IsPeak curve j peak)
    (h' : IsPeak curve j other) : peak = other := by
  obtain ⟨⟨k, hk, y, hy, rfl⟩, hmost⟩ := h
  obtain ⟨⟨k', hk', y', hy', rfl⟩, hmost'⟩ := h'
  exact le_antisymm (hmost' k hk y hy) (hmost k' hk' y' hy')

-- At a new peak nothing has been lost.
theorem FallAt.eq_zero (hp : HighPoint curve n i p) (hx : curve[n]? = some x)
    (hle : p.equity ≤ x.equity) (h : FallAt curve n f) : f = 0 := by
  obtain ⟨y, peak, hy, hpeak, -, rfl⟩ := h
  obtain rfl := Option.some.inj (hx.symm.trans hy)
  have hown : IsPeak curve n x.equity := by
    refine ⟨⟨n, le_rfl, x, hx, rfl⟩, forall_upTo hx le_rfl fun k hk z hz => ?_⟩
    exact (hp.highest k hk z hz).trans hle
  rw [hpeak.unique hown, sub_self, zero_div]

theorem fallAt_iff (hp : HighPoint curve n i p) (hx : curve[n]? = some x)
    (hlt : x.equity < p.equity) :
    FallAt curve n f ↔ 0 < p.equity ∧ f = (p.equity - x.equity) / p.equity := by
  have hown : IsPeak curve n p.equity :=
    hp.isPeak TotallyOrdered.exact (fun _ _ => trivial) hx hlt
  constructor
  · rintro ⟨y, peak, hy, hpeak, hpos, rfl⟩
    obtain rfl := Option.some.inj (hx.symm.trans hy)
    obtain rfl := hpeak.unique hown
    exact ⟨hpos, rfl⟩
  · rintro ⟨hpos, rfl⟩
    exact ⟨x, p.equity, hx, hown, hpos, rfl⟩

-- Where the deepest fall so far is: at the first point that falls as deep, from the first point
-- that was as high.
structure Deepest (curve : List (EquityPoint K)) (n : ℕ) (d : Drawdown K) (i j : ℕ)
    (p x : EquityPoint K) : Prop where
  peak : HighPoint curve j i p
  point : curve[j]? = some x
  shown : j < n
  lower : x.equity < p.equity
  fall : FallAt curve j d.fraction
  first : ∀ k < j, ¬ FallAt curve k d.fraction
  peakEquity : d.peakEquity = p.equity
  troughEquity : d.troughEquity = x.equity
  peakDate : d.peakDate = some p.date
  troughDate : d.troughDate = some x.date

-- What has been found in the first `n` points.
structure Found (curve : List (EquityPoint K)) (n : ℕ) (d : Drawdown K) : Prop where
  fraction : IsGreatest (insert 0 (falls curve n)) d.fraction
  deepest : 0 < d.fraction → ∃ i j p x, Deepest curve n d i j p x
  amount : d.amount = d.peakEquity - d.troughEquity

-- A point that falls no deeper than what has been found changes nothing of it.
theorem Found.keep {d : Drawdown K} (hd : Found curve n d)
    (hfall : ∀ f, FallAt curve n f → f ≤ d.fraction) (duration : ℕ) :
    Found curve (n + 1) { d with duration := duration } := by
  refine ⟨⟨mem_falls_succ.2 (.inl hd.fraction.1), fun f hf => ?_⟩, fun hpos => ?_, hd.amount⟩
  · rcases mem_falls_succ.1 hf with hf | hf
    · exact hd.fraction.2 hf
    · exact hfall f hf
  · obtain ⟨i, j, p, x, h⟩ := hd.deepest hpos
    exact ⟨i, j, p, x, h.peak, h.point, h.shown.trans (Nat.lt_succ_self n), h.lower, h.fall,
      h.first, h.peakEquity, h.troughEquity, h.peakDate, h.troughDate⟩

-- One that falls deeper is the first of its depth.
theorem Found.deepen {d : Drawdown K} (hd : Found curve n d) (hp : HighPoint curve n i p)
    (hx : curve[n]? = some x) (hlt : x.equity < p.equity) (hpos : 0 < p.equity)
    (hdeeper : d.fraction < (p.equity - x.equity) / p.equity) (duration : ℕ) :
    Found curve (n + 1)
      ⟨(p.equity - x.equity) / p.equity, p.equity - x.equity, duration, p.equity, x.equity,
        some p.date, some x.date⟩ := by
  have hfall : FallAt curve n ((p.equity - x.equity) / p.equity) :=
    (fallAt_iff hp hx hlt).2 ⟨hpos, rfl⟩
  have hbefore : ∀ f ∈ insert 0 (falls curve n), f < (p.equity - x.equity) / p.equity :=
    fun f hf => (hd.fraction.2 hf).trans_lt hdeeper
  refine ⟨⟨mem_falls_succ.2 (.inr hfall), fun f hf => ?_⟩, fun _ => ⟨i, n, p, x, ?_⟩, rfl⟩
  · rcases mem_falls_succ.1 hf with hf | hf
    · exact (hbefore f hf).le
    · exact ((fallAt_iff hp hx hlt).1 hf).2.le
  · refine ⟨hp, hx, Nat.lt_succ_self n, hlt, hfall, fun k hk h => ?_, rfl, rfl, rfl, rfl⟩
    exact (hbefore _ (Set.mem_insert_of_mem _ ⟨k, hk, h⟩)).ne rfl

theorem Found.step {s : State K} (hd : Found curve n s.found) (hp : HighPoint curve n i s.peak)
    (hx : curve[n]? = some x) : Found curve (n + 1) (step s x).found := by
  unfold Drawdown.step
  by_cases hle : s.peak.equity ≤ x.equity
  · rw [if_pos hle]
    apply hd.keep
    intro f hf
    rw [hf.eq_zero hp hx hle]
    exact hd.fraction.2 (Set.mem_insert _ _)
  · rw [if_neg hle]
    have hlt : x.equity < s.peak.equity := not_le.1 hle
    dsimp only
    split
    · rename_i hdeeper
      exact hd.deepen hp hx hlt hdeeper.1 hdeeper.2 _
    · rename_i hnot
      apply hd.keep
      intro f hf
      obtain ⟨hpos, rfl⟩ := (fallAt_iff hp hx hlt).1 hf
      exact not_lt.1 fun hdeeper => hnot ⟨hpos, hdeeper⟩

theorem found_of_cons (p : EquityPoint K) (rest : List (EquityPoint K)) :
    Found (p :: rest) (p :: rest).length (of (p :: rest)) := by
  have hproper : ∀ y ∈ p :: rest, True := fun _ _ => trivial
  have hstart : Found (p :: rest) 1 (start p).found := by
    have hfirst : IsPeak (p :: rest) 0 p.equity := by
      refine ⟨⟨0, le_rfl, p, rfl, rfl⟩, fun k hk y hy => ?_⟩
      obtain rfl := Nat.le_zero.1 hk
      cases hy
      exact le_rfl
    have hzero : ∀ f ∈ falls (p :: rest) 1, f = 0 := by
      rintro f ⟨j, hj, y, peak, hy, hpeak, -, rfl⟩
      obtain rfl := Nat.lt_one_iff.1 hj
      cases hy
      rw [hpeak.unique hfirst, sub_self, zero_div]
    refine ⟨⟨Set.mem_insert _ _, fun f hf => ?_⟩, fun h => absurd h (lt_irrefl _),
      (sub_self _).symm⟩
    rcases Set.mem_insert_iff.1 hf with rfl | hf
    · exact le_rfl
    · exact (hzero f hf).le
  have hall := foldl_indexed
    (I := fun n (s : State K) => Tracks (p :: rest) n s ∧ Found (p :: rest) n s.found)
    (fun n s x hx hs =>
      ⟨hs.1.step TotallyOrdered.exact hproper hx, hs.2.step hs.1.peak.choose_spec hx⟩)
    [p] rest rfl ⟨Tracks.start TotallyOrdered.exact trivial rest, hstart⟩
  rw [of_cons TotallyOrdered.exact trivial]
  exact hall.2

-- What a drawdown says of its curve.
structure Measures (curve : List (EquityPoint K)) (d : Drawdown K) : Prop where
  -- the largest fall, or nothing
  fraction : IsGreatest (insert 0 {f | ∃ j, FallAt curve j f}) d.fraction
  -- between the first day of the peak and the first day that is as deep
  dates : 0 < d.fraction → ∃ (i j : ℕ) (peak trough : EquityPoint K),
    curve[i]? = some peak ∧ curve[j]? = some trough ∧
    d.peakDate = some peak.date ∧ d.peakEquity = peak.equity ∧
    d.troughDate = some trough.date ∧ d.troughEquity = trough.equity ∧
    peak.date < trough.date ∧ IsPeak curve j peak.equity ∧ FallAt curve j d.fraction ∧
    (∀ y ∈ curve, y.equity = peak.equity → peak.date ≤ y.date) ∧
    ∀ (k : ℕ) (y : EquityPoint K), curve[k]? = some y → FallAt curve k d.fraction →
      trough.date ≤ y.date
  amount : d.amount = d.peakEquity - d.troughEquity
  duration : IsGreatest (runs (Below curve) curve.length) d.duration
  fraction_le_one : (∀ x ∈ curve, 0 ≤ x.equity) → d.fraction ≤ 1

omit [Field K] [FloorRing K] [Roots K] [LinearOrder K] in
theorem date_lt (hdates : curve.Pairwise fun x y => x.date < y.date) {j k : ℕ}
    {x y : EquityPoint K} (hx : curve[j]? = some x) (hy : curve[k]? = some y) (hjk : j < k) :
    x.date < y.date := by
  obtain ⟨hj, rfl⟩ := List.getElem?_eq_some_iff.1 hx
  obtain ⟨hk, rfl⟩ := List.getElem?_eq_some_iff.1 hy
  exact List.pairwise_iff_getElem.1 hdates j k hj hk hjk

omit [Field K] [FloorRing K] [Roots K] [LinearOrder K] in
theorem date_le (hdates : curve.Pairwise fun x y => x.date < y.date) {j k : ℕ}
    {x y : EquityPoint K} (hx : curve[j]? = some x) (hy : curve[k]? = some y) (hjk : j ≤ k) :
    x.date ≤ y.date := by
  by_cases hsame : j = k
  · subst hsame
    rw [Option.some.inj (hx.symm.trans hy)]
  · exact (date_lt hdates hx hy (by omega)).le

theorem setOf_fallAt : {f | ∃ j, FallAt curve j f} = falls curve curve.length := by
  ext f
  constructor
  · rintro ⟨j, y, peak, hy, hfall⟩
    exact ⟨j, (List.getElem?_eq_some_iff.1 hy).1, y, peak, hy, hfall⟩
  · rintro ⟨j, -, h⟩
    exact ⟨j, h⟩

variable [IsStrictOrderedRing K]

theorem FallAt.le_one {j : ℕ} (hnonneg : ∀ x ∈ curve, 0 ≤ x.equity) (h : FallAt curve j f) :
    f ≤ 1 := by
  obtain ⟨y, peak, hy, -, hpos, rfl⟩ := h
  rw [div_le_one hpos]
  have hy := hnonneg y (List.mem_of_getElem? hy)
  linarith

theorem measures_of_found {d : Drawdown K} (hdates : curve.Pairwise fun x y => x.date < y.date)
    (hd : Found curve curve.length d)
    (hduration : IsGreatest (runs (Below curve) curve.length) d.duration) : Measures curve d := by
  have hgreatest : IsGreatest (insert 0 {f | ∃ j, FallAt curve j f}) d.fraction := by
    rw [setOf_fallAt]
    exact hd.fraction
  refine ⟨hgreatest, fun hpos => ?_, hd.amount, hduration, fun hnonneg => ?_⟩
  · obtain ⟨i, j, p, x, h⟩ := hd.deepest hpos
    have hpeak := h.peak.isPeak TotallyOrdered.exact (fun _ _ => trivial) h.point h.lower
    refine ⟨i, j, p, x, h.peak.point, h.point, h.peakDate, h.peakEquity, h.troughDate,
      h.troughEquity, date_lt hdates h.peak.point h.point h.peak.shown, hpeak, h.fall, ?_, ?_⟩
    · intro y hy hequity
      obtain ⟨k, hk⟩ := List.mem_iff_getElem?.1 hy
      refine date_le hdates h.peak.point hk (Nat.le_of_not_lt fun hki => ?_)
      exact (h.peak.first k hki y hk).ne hequity
    · intro k y hk hfall
      exact date_le hdates h.point hk (Nat.le_of_not_lt fun hkj => h.first k hkj hfall)
  · rcases Set.mem_insert_iff.1 hgreatest.1 with hzero | ⟨j, hfall⟩
    · rw [hzero]
      exact zero_le_one
    · exact hfall.le_one hnonneg

-- In exact arithmetic a drawdown is the largest fall of its curve below the running peak, with the
-- first day of that peak and the first day that is as deep, and its duration is the longest time
-- below a peak. The duration is right for doubles as well.
theorem drawdown_of_curve :
    (∀ curve : List (EquityPoint K), (curve.Pairwise fun x y => x.date < y.date) →
      Measures curve (of curve)) ∧
    ∀ curve : List (EquityPoint Float), (∀ x ∈ curve, x.equity.isNaN = false) →
      IsGreatest (runs (Below curve) curve.length) (of curve).duration := by
  refine ⟨fun curve hdates => ?_, fun curve hnumbers => ?_⟩
  · have hproper : ∀ x ∈ curve, True := fun _ _ => trivial
    have hduration := isGreatest_duration TotallyOrdered.exact hproper
    apply measures_of_found hdates _ hduration
    cases curve with
    | nil =>
      have hnone : falls ([] : List (EquityPoint K)) 0 = ∅ :=
        Set.eq_empty_of_forall_notMem fun f ⟨j, hj, _⟩ => absurd hj (Nat.not_lt_zero j)
      refine ⟨?_, fun h => absurd h (lt_irrefl _), (sub_self _).symm⟩
      rw [List.length_nil, hnone, insert_empty_eq]
      exact isGreatest_singleton
    | cons p rest => exact found_of_cons p rest
  · exact isGreatest_duration TotallyOrdered.doubles hnumbers

end Exact

section Rational

attribute [local instance] Roots.untaken

-- Days of an October, the first of them being 0.
def october (day : Fin 31) : Date :=
  ⟨2016, 10, day + 1, by decide, by decide, ⟨by omega, day.isLt⟩⟩

def curveOf {α : Type} (values : List α) : List (EquityPoint α) :=
  ([2, 3, 4, 5, 6, 9].zip values).map fun (day, equity) => ⟨october day, equity⟩

-- Two falls by a quarter, with a recovery up to the peak in between.
def twice : List (EquityPoint ℚ) := curveOf [100, 140, 105, 110, 140, 105]

-- A curve that never gets above zero.
def underwater : List (EquityPoint Float) := curveOf [-3.0, -5.0, -4.0, -3.5, -3.0, -6.0]

theorem drawdown_of_curve_twice :
    (twice.Pairwise fun x y => x.date < y.date) ∧ Measures twice (of twice) ∧
      (of twice).fraction = 1 / 4 ∧ (of twice).troughDate = some (october 4) ∧
      (∀ x ∈ underwater, x.equity.isNaN = false) ∧
      IsGreatest (runs (Below underwater) underwater.length) 3 := by
  have hdates : twice.Pairwise fun x y => x.date < y.date := by decide
  have hnumbers : ∀ x ∈ underwater, x.equity.isNaN = false := by decide
  have hthree : (of underwater).duration = 3 := by decide
  obtain ⟨hmeasures, hduration⟩ := drawdown_of_curve (K := ℚ)
  have hlongest := hduration underwater hnumbers
  rw [hthree] at hlongest
  exact ⟨hdates, hmeasures twice hdates, by decide +kernel, by decide +kernel, hnumbers, hlongest⟩

end Rational

end Drawdown

end BarReplay
