import BarReplay.Proofs.Indicator.Table

namespace BarReplay.Indicator

variable {α σ : Type}

namespace Study

-- What is said about the first bars does not change when more bars follow.
theorem walk_append (s : Study α σ) {state : σ} {earlier bars more : List (Bar α)}
    {points : List (Point α)} (h : s.walk state earlier (bars ++ more) = .ok points) :
    s.walk state earlier bars = .ok (points.take bars.length) := by
  induction bars generalizing state earlier points with
  | nil => rfl
  | cons b bars ih =>
    obtain ⟨⟨next, valid, reading⟩, hstep, h⟩ := except_bind_eq_ok.1 h
    obtain ⟨rest, hrest, h⟩ := except_bind_eq_ok.1 h
    cases h
    simp only [walk, hstep, bind, Except.bind, ih hrest]
    rfl

theorem run_append (s : Study α σ) {bars more : List (Bar α)} {points : List (Point α)}
    (h : s.run (bars ++ more) = .ok points) : s.run bars = .ok (points.take bars.length) := by
  obtain ⟨state, hstart, h⟩ := except_bind_eq_ok.1 h
  exact except_bind_eq_ok.2 ⟨state, hstart, s.walk_append h⟩

-- There is one point for each bar, with its date.
theorem walk_dates (s : Study α σ) {state : σ} {earlier bars : List (Bar α)}
    {points : List (Point α)} (h : s.walk state earlier bars = .ok points) :
    points.map (·.date) = bars.map (·.date) := by
  induction bars generalizing state earlier points with
  | nil =>
    cases h
    rfl
  | cons b bars ih =>
    obtain ⟨⟨next, valid, reading⟩, -, h⟩ := except_bind_eq_ok.1 h
    obtain ⟨rest, hrest, h⟩ := except_bind_eq_ok.1 h
    cases h
    exact congrArg (b.date :: ·) (ih hrest)

theorem run_dates (s : Study α σ) {bars : List (Bar α)} {points : List (Point α)}
    (h : s.run bars = .ok points) : points.map (·.date) = bars.map (·.date) := by
  obtain ⟨state, -, h⟩ := except_bind_eq_ok.1 h
  exact s.walk_dates h

-- What a machine knows after some bars, the last one first, and says with that one.
theorem walk_says (s : Study α σ) (Knows : List (Bar α) → σ → Prop)
    (Says : List (Bar α) → Bool → Reading α → Prop)
    (hstep : ∀ {earlier b state next valid reading}, Knows earlier state →
      s.step state ⟨earlier, b⟩ = .ok (next, valid, reading) →
      Knows (b :: earlier) next ∧ Says (b :: earlier) valid reading)
    {state : σ} {earlier bars : List (Bar α)} {points : List (Point α)}
    (hstate : Knows earlier state) (h : s.walk state earlier bars = .ok points) {i : Nat}
    {p : Point α} (hp : points[i]? = some p) :
    Says ((bars.take (i + 1)).reverse ++ earlier) p.valid p.reading := by
  induction bars generalizing state earlier points i with
  | nil =>
    cases h
    cases hp
  | cons b bars ih =>
    obtain ⟨⟨next, valid, reading⟩, hnext, h⟩ := except_bind_eq_ok.1 h
    obtain ⟨rest, hrest, h⟩ := except_bind_eq_ok.1 h
    cases h
    obtain ⟨hknows, hsays⟩ := hstep hstate hnext
    cases i with
    | zero =>
      cases hp
      exact hsays
    | succ i =>
      have hlater := ih hknows hrest hp
      rwa [List.take_succ_cons, List.reverse_cons, List.append_assoc]

theorem run_says (s : Study α σ) (Knows : List (Bar α) → σ → Prop)
    (Says : List (Bar α) → Bool → Reading α → Prop)
    (hstart : ∀ {state}, s.start = .ok state → Knows [] state)
    (hstep : ∀ {earlier b state next valid reading}, Knows earlier state →
      s.step state ⟨earlier, b⟩ = .ok (next, valid, reading) →
      Knows (b :: earlier) next ∧ Says (b :: earlier) valid reading)
    {bars : List (Bar α)} {points : List (Point α)} (h : s.run bars = .ok points) {i : Nat}
    {p : Point α} (hp : points[i]? = some p) :
    Says (bars.take (i + 1)).reverse p.valid p.reading := by
  obtain ⟨state, hnone, h⟩ := except_bind_eq_ok.1 h
  have hlast := s.walk_says Knows Says hstep (hstart hnone) h hp
  rwa [List.append_nil] at hlast

end Study

-- The first points of a series.
def Series.cut (n : Nat) (s : Series α) : Series α :=
  { s with points := s.points.take n }

-- The first points of every series of a table.
def Table.cut (n : Nat) (t : Table α) : Table α :=
  t.map fun entry => (entry.1, entry.2.cut n)

variable [Amount α]

-- No indicator looks ahead.
theorem Spec.points_append (s : Spec α) {bars more : List (Bar α)} {points : List (Point α)}
    (h : s.points (bars ++ more) = .ok points) :
    s.points bars = .ok (points.take bars.length) := by
  unfold Spec.points at h ⊢
  split at h <;> exact Study.run_append _ h

theorem Spec.points_dates (s : Spec α) {bars : List (Bar α)} {points : List (Point α)}
    (h : s.points bars = .ok points) : points.map (·.date) = bars.map (·.date) := by
  unfold Spec.points at h
  split at h <;> exact Study.run_dates _ h

theorem Spec.points_length (s : Spec α) {bars : List (Bar α)} {points : List (Point α)}
    (h : s.points bars = .ok points) : points.length = bars.length := by
  simpa using congrArg List.length (s.points_dates h)

theorem Spec.exists_point_iff (s : Spec α) {bars : List (Bar α)} {points : List (Point α)}
    (h : s.points bars = .ok points) (i : Nat) : (∃ p, points[i]? = some p) ↔ i < bars.length := by
  rw [← s.points_length h]
  constructor
  · rintro ⟨p, hp⟩
    exact (List.getElem?_eq_some_iff.1 hp).1
  · intro hi
    exact ⟨points[i], List.getElem?_eq_getElem hi⟩

theorem Spec.series_append (s : Spec α) {bars more : List (Bar α)} {series : Series α}
    (h : s.series (bars ++ more) = .ok series) :
    s.series bars = .ok (series.cut bars.length) := by
  obtain ⟨points, hpoints, h⟩ := except_bind_eq_ok.1 h
  cases h
  exact except_bind_eq_ok.2 ⟨_, s.points_append hpoints, rfl⟩

theorem Spec.series_dates (s : Spec α) {bars : List (Bar α)} {series : Series α}
    (h : s.series bars = .ok series) : series.points.map (·.date) = bars.map (·.date) := by
  obtain ⟨points, hpoints, h⟩ := except_bind_eq_ok.1 h
  cases h
  exact s.points_dates hpoints

namespace Table

theorem find?_cut (t : Table α) (n : Nat) (s : Spec α) :
    (t.cut n).find? s = (t.find? s).map (Series.cut n) := by
  simp only [find?, cut, List.find?_map, Option.map_map]
  rfl

theorem get_append {bars more : List (Bar α)} {s : Spec α} {t t' : Table α} {series : Series α}
    (h : get (bars ++ more) s t = .ok (series, t')) :
    get bars s (t.cut bars.length) = .ok (series.cut bars.length, t'.cut bars.length) := by
  obtain ⟨hfind, rfl⟩ | ⟨hfind, hseries, rfl⟩ := get_eq_ok_iff.1 h
  · exact get_eq_ok_iff.2 (.inl ⟨by rw [find?_cut, hfind]; rfl, rfl⟩)
  · refine get_eq_ok_iff.2 (.inr ⟨by rw [find?_cut, hfind]; rfl, s.series_append hseries, ?_⟩)
    simp [cut]

-- A table over the first bars is a table over all of them, cut off.
theorem ofSpecs_append {bars more : List (Bar α)} {specs : List (Spec α)} {t : Table α}
    (h : ofSpecs (bars ++ more) specs = .ok t) :
    ofSpecs bars specs = .ok (t.cut bars.length) :=
  foldlM_map (fun hget => ⟨_, get_append hget⟩) h

end Table

end BarReplay.Indicator
