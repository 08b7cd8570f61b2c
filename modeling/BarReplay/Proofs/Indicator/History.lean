import Mathlib.Data.List.DropRight
import Mathlib.Data.List.Infix
import BarReplay.Proofs.Indicator.WarmUp

namespace BarReplay

section Window

variable {α : Type}

-- While there are fewer values than a window holds, a further one is put behind them.
theorem rtake_concat_of_lt {n : Nat} {xs : List α} (h : xs.length < n) (x : α) :
    xs.rtake n = xs ∧ (xs ++ [x]).rtake n = xs ++ [x] := by
  have hlength : (xs ++ [x]).length = xs.length + 1 := by simp
  constructor
  · rw [List.rtake, Nat.sub_eq_zero_of_le h.le, List.drop_zero]
  · rw [List.rtake, Nat.sub_eq_zero_of_le (by omega), List.drop_zero]

-- A full window loses its oldest value to a further one.
theorem rtake_concat_of_le {n : Nat} (hn : 1 ≤ n) {xs : List α} (h : n ≤ xs.length) (x : α) :
    ∃ oldest rest, xs.rtake n = oldest :: rest ∧ (xs ++ [x]).rtake n = rest ++ [x] ∧
      (x :: xs.reverse)[n]? = some oldest := by
  have hfirst : xs.length - n < xs.length := by omega
  refine ⟨xs[xs.length - n], xs.drop (xs.length - n + 1), ?_, ?_, ?_⟩
  · rw [List.rtake, List.drop_eq_getElem_cons hfirst]
  · rw [List.rtake, List.length_append, List.length_singleton,
      List.drop_append_of_le_length (by omega)]
    congr 2
    omega
  · obtain ⟨m, rfl⟩ := Nat.exists_eq_add_of_le' hn
    rw [List.getElem?_cons_succ, List.getElem?_reverse (by omega),
      List.getElem?_eq_getElem (by omega)]
    congr 2
    omega

-- The last values of a beginning, counted from the front.
theorem rtake_take {xs : List α} {n i : Nat} (hn : n ≤ i) (hi : i ≤ xs.length) :
    (xs.take i).rtake n = (xs.drop (i - n)).take n := by
  rw [List.rtake, List.length_take_of_le hi, List.drop_take, Nat.sub_sub_self hn]

-- Each value with the one before it.
def withPrevious (xs : List α) : List (α × Option α) :=
  xs.zip (none :: xs.map some)

theorem withPrevious_concat (xs : List α) (x : α) :
    withPrevious (xs ++ [x]) = withPrevious xs ++ [(x, xs.getLast?)] := by
  have hzip : ∀ (first : Option α), (xs ++ [x]).zip (first :: (xs ++ [x]).map some) =
      xs.zip (first :: xs.map some) ++ [(x, xs.getLast?.or first)] := by
    induction xs with
    | nil => exact fun first => rfl
    | cons y ys ih =>
      intro first
      rw [List.cons_append, List.map_cons, List.zip_cons_cons, ih, List.getLast?_cons]
      cases ys.getLast? <;> rfl
  rw [withPrevious, hzip, Option.or_none]
  rfl

theorem mem_withPrevious {xs : List α} {x : α} {previous : Option α}
    (h : (x, previous) ∈ withPrevious xs) : x ∈ xs ∧ ∀ y ∈ previous, y ∈ xs := by
  obtain ⟨hx, hprevious⟩ := List.of_mem_zip h
  refine ⟨hx, fun y hy => ?_⟩
  cases hy
  simpa using hprevious

end Window

section Beginnings

variable {α β : Type} {n : Nat} {f : List α → β}

-- What is made of each beginning of a list, from that one on that has `n` values.
def onBeginnings (n : Nat) (f : List α → β) (xs : List α) : List β :=
  (xs.inits.drop n).map f

theorem onBeginnings_length (n : Nat) (f : List α → β) (xs : List α) :
    (onBeginnings n f xs).length = xs.length + 1 - n := by
  rw [onBeginnings, List.length_map, List.length_drop, List.length_inits]

theorem onBeginnings_getElem? {xs : List α} {i : Nat} (h : n + i ≤ xs.length) :
    (onBeginnings n f xs)[i]? = some (f (xs.take (n + i))) := by
  have hfront : n + i < xs.inits.length := by
    rw [List.length_inits]
    omega
  rw [onBeginnings, List.getElem?_map, List.getElem?_drop, List.getElem?_eq_getElem hfront,
    List.getElem_inits]
  rfl

theorem onBeginnings_take (xs : List α) (m : Nat) :
    onBeginnings n f (xs.take m) = (onBeginnings n f xs).take (m + 1 - n) := by
  rw [onBeginnings, List.take_inits, List.drop_take, List.map_take]
  rfl

theorem onBeginnings_eq_nil {xs : List α} (h : xs.length < n) : onBeginnings n f xs = [] := by
  refine List.eq_nil_of_length_eq_zero ?_
  rw [onBeginnings_length]
  omega

theorem onBeginnings_concat {xs : List α} (h : n ≤ xs.length + 1) (x : α) :
    onBeginnings n f (xs ++ [x]) = onBeginnings n f xs ++ [f (xs ++ [x])] := by
  have hfull : n ≤ xs.inits.length := by rwa [List.length_inits]
  rw [onBeginnings, List.inits_append, List.drop_append_of_le_length hfull, List.map_append]
  rfl

end Beginnings

theorem Amount.sum_concat {α : Type} [Amount α] (xs : List α) (x : α) :
    Amount.sum (xs ++ [x]) = Amount.sum xs + x := by
  rw [Amount.sum, List.foldl_append]
  rfl

namespace Indicator

variable {α σ : Type}

namespace Moment

-- What is known when a bar closes after those shown before it, oldest first.

theorem window_shown (shown : List (Bar α)) (b : Bar α) (n : Nat) :
    (Moment.mk shown.reverse b).window n = (shown ++ [b]).rtake n := by
  rw [List.rtake_eq_reverse_take_reverse, List.reverse_append]
  rfl

theorem index_shown (shown : List (Bar α)) (b : Bar α) :
    (Moment.mk shown.reverse b).index = shown.length :=
  List.length_reverse

theorem previous_shown (shown : List (Bar α)) (b : Bar α) :
    (Moment.mk shown.reverse b).ago? 1 = shown.getLast? := by
  rw [ago?, List.getElem?_cons_succ, ← List.head?_eq_getElem?, List.head?_reverse]

end Moment

-- The closes of the last bars.
def lastCloses (n : Nat) (bars : List (Bar α)) : List α :=
  (bars.rtake n).map Bar.close

theorem lastCloses_nil (n : Nat) : lastCloses n ([] : List (Bar α)) = [] := by
  rw [lastCloses, List.rtake_nil, List.map_nil]

theorem lastCloses_length {n : Nat} {bars : List (Bar α)} (h : n ≤ bars.length) :
    (lastCloses n bars).length = n := by
  rw [lastCloses, List.length_map, List.rtake, List.length_drop]
  omega

theorem lastCloses_ne_nil {n : Nat} {bars : List (Bar α)} (hn : 1 ≤ n) (h : n ≤ bars.length) :
    lastCloses n bars ≠ [] :=
  List.ne_nil_of_length_pos ((lastCloses_length h).symm ▸ hn)

theorem lastCloses_take {bars : List (Bar α)} {n i : Nat} (hn : n ≤ i + 1) (hi : i < bars.length) :
    lastCloses n (bars.take (i + 1)) = ((bars.map Bar.close).drop (i + 1 - n)).take n := by
  rw [lastCloses, rtake_take hn hi, List.map_take, List.map_drop]

-- What a further bar does to the closes of the last bars: one more, or one in and one out.
inductive Moves (n : Nat) (shown : List (Bar α)) (b : Bar α) : Prop where
  | fills (hlength : (lastCloses n shown).length = shown.length)
      (hago : (Moment.mk shown.reverse b).ago? n = none)
      (hnext : lastCloses n (shown ++ [b]) = lastCloses n shown ++ [b.close])
  | slides (oldest : Bar α) (rest : List α) (hlength : rest.length + 1 = n)
      (hago : (Moment.mk shown.reverse b).ago? n = some oldest)
      (hlast : lastCloses n shown = oldest.close :: rest)
      (hnext : lastCloses n (shown ++ [b]) = rest ++ [b.close])

theorem moves {n : Nat} (hn : 1 ≤ n) (shown : List (Bar α)) (b : Bar α) : Moves n shown b := by
  rcases Nat.lt_or_ge shown.length n with hfills | hfull
  · obtain ⟨hshown, hall⟩ := rtake_concat_of_lt hfills b
    have hago : (Moment.mk shown.reverse b).ago? n = none := by
      rw [Moment.ago?_eq_none_iff, Moment.index_shown]
      exact hfills
    refine .fills ?_ hago ?_
    · rw [lastCloses, hshown, List.length_map]
    · rw [lastCloses, lastCloses, hshown, hall, List.map_append]
      rfl
  · obtain ⟨oldest, rest, hlast, hnext, hago⟩ := rtake_concat_of_le hn hfull b
    have hlength := lastCloses_length hfull
    rw [lastCloses, hlast, List.length_map] at hlength
    refine .slides oldest (rest.map Bar.close) (by rwa [List.length_map]) hago ?_ ?_
    · rw [lastCloses, hlast, List.map_cons]
    · rw [lastCloses, hnext, List.map_append]
      rfl

-- A window is full with the bar that makes up its length.
theorem full_of_le {n : Nat} {shown : List (Bar α)} {b : Bar α}
    (h : n ≤ (shown ++ [b]).length) :
    decide (n ≤ (Moment.mk shown.reverse b).index + 1) = true := by
  rwa [Moment.index_shown, decide_eq_true_iff, ← List.length_singleton (a := b),
    ← List.length_append]

namespace Study

-- What a machine knows after some bars, oldest first, and what it says with the last of them.
structure Tells (s : Study α σ) (Knows : List (Bar α) → σ → Prop)
    (Says : List (Bar α) → Reading α → Prop) : Prop where
  start : ∀ {state}, s.start = .ok state → Knows [] state
  step : ∀ {shown b state next valid reading}, Knows shown state →
    s.step state ⟨shown.reverse, b⟩ = .ok (next, valid, reading) →
    Knows (shown ++ [b]) next ∧ Says (shown ++ [b]) reading

namespace Tells

variable {s : Study α σ} {Knows : List (Bar α) → σ → Prop}
  {Says : List (Bar α) → Reading α → Prop}

theorem run (hs : s.Tells Knows Says) {bars : List (Bar α)} {points : List (Point α)}
    (h : s.run bars = .ok points) {i : Nat} {p : Point α} (hp : points[i]? = some p) :
    Says (bars.take (i + 1)) p.reading := by
  have hsays := s.run_says (fun shown => Knows shown.reverse)
    (fun shown _ reading => Says shown.reverse reading) hs.start
    (fun {earlier b} _ _ _ _ hstate hstep => ?_) h hp
  · rwa [List.reverse_reverse] at hsays
  · rw [← List.reverse_reverse earlier] at hstep
    rw [List.reverse_cons]
    exact hs.step hstate hstep

end Tells

-- A field from the point on at which it can be told from the bars up to there.
theorem column_eq {points : List (Point α)} {bars : List (Bar α)}
    (hlength : points.length = bars.length) {n : Nat} (hn : 1 ≤ n) {f : Field}
    {g : List (Bar α) → α} (hread : ∀ i p, points[i]? = some p → n ≤ i + 1 →
      p.reading.get? f = some (g (bars.take (i + 1)))) :
    (points.drop (n - 1)).map (·.reading.get? f) = (onBeginnings n g bars).map some := by
  refine List.ext_getElem ?_ fun i hi _ => ?_
  · rw [List.length_map, List.length_map, List.length_drop, onBeginnings_length, hlength]
    omega
  · rw [List.length_map, List.length_drop] at hi
    have hp : points[n - 1 + i]? = some points[n - 1 + i] := List.getElem?_eq_getElem (by omega)
    have hbeginning : (onBeginnings n g bars)[i]? = some (g (bars.take (n - 1 + i + 1))) := by
      rw [show n - 1 + i + 1 = n + i by omega]
      exact onBeginnings_getElem? (by omega)
    obtain ⟨_, hbeginning⟩ := List.getElem?_eq_some_iff.1 hbeginning
    rw [List.getElem_map, List.getElem_drop, List.getElem_map, hbeginning]
    exact hread _ _ hp (by omega)

-- A machine that has an answer to every bar.
structure Total (s : Study α σ) : Prop where
  start : ∃ state, s.start = .ok state
  step : ∀ state m, ∃ answer, s.step state m = .ok answer

theorem Total.walk {s : Study α σ} (hs : s.Total) (state : σ) (earlier bars : List (Bar α)) :
    ∃ points, s.walk state earlier bars = .ok points := by
  induction bars generalizing state earlier with
  | nil => exact ⟨[], rfl⟩
  | cons b bars ih =>
    obtain ⟨⟨next, valid, reading⟩, hstep⟩ := hs.step state ⟨earlier, b⟩
    obtain ⟨points, hpoints⟩ := ih next (b :: earlier)
    exact ⟨_, except_bind_eq_ok.2 ⟨_, hstep, except_bind_eq_ok.2 ⟨points, hpoints, rfl⟩⟩⟩

theorem Total.run {s : Study α σ} (hs : s.Total) (bars : List (Bar α)) :
    ∃ points, s.run bars = .ok points := by
  obtain ⟨state, hstart⟩ := hs.start
  obtain ⟨points, hpoints⟩ := hs.walk state [] bars
  exact ⟨points, except_bind_eq_ok.2 ⟨state, hstart, hpoints⟩⟩

-- A machine that has an answer to every bar gives points if it can be started.
theorem exists_run_iff {s : Study α σ}
    (hstep : ∀ state m, ∃ answer, s.step state m = .ok answer) (bars : List (Bar α)) :
    (∃ points, s.run bars = .ok points) ↔ ∃ state, s.start = .ok state := by
  constructor
  · rintro ⟨points, h⟩
    obtain ⟨state, hstart, -⟩ := except_bind_eq_ok.1 h
    exact ⟨state, hstart⟩
  · intro hstart
    exact Total.run ⟨hstart, hstep⟩ bars

-- A second machine that answers as the first one does in the states that this gets into.
structure Follows (s' s : Study α σ) (Reached : σ → Prop) : Prop where
  start : s'.start = s.start
  first : ∀ {state}, s.start = .ok state → Reached state
  step : ∀ {state} m, Reached state → s'.step state m = s.step state m
  next : ∀ {state m next valid reading}, Reached state →
    s.step state m = .ok (next, valid, reading) → Reached next

namespace Follows

variable {s s' : Study α σ} {Reached : σ → Prop}

theorem walk (h : s'.Follows s Reached) {state : σ} (hstate : Reached state)
    (earlier bars : List (Bar α)) : s'.walk state earlier bars = s.walk state earlier bars := by
  induction bars generalizing state earlier with
  | nil => rfl
  | cons b bars ih =>
    rw [Study.walk, Study.walk, h.step _ hstate]
    cases hanswer : s.step state ⟨earlier, b⟩ with
    | error fault => rfl
    | ok answer =>
      have hnext : Reached answer.1 := h.next hstate hanswer
      change s'.walk answer.1 (b :: earlier) bars >>= _ = s.walk answer.1 (b :: earlier) bars >>= _
      rw [ih hnext]

theorem run (h : s'.Follows s Reached) (bars : List (Bar α)) : s'.run bars = s.run bars := by
  rw [Study.run, Study.run, h.start]
  cases hstart : s.start with
  | error fault => rfl
  | ok state => exact h.walk (h.first hstart) [] bars

end Follows

end Study

variable [Amount α]

-- The indicator has a series over the bars, and the value can be read there.
def Spec.Gives (s : Spec α) (bars : List (Bar α)) (index : Nat) (f : Field) (value : α) : Prop :=
  ∃ series, s.series bars = .ok series ∧ series.valueAt? index f = some value

theorem Spec.exists_series_iff (s : Spec α) (bars : List (Bar α)) :
    (∃ series, s.series bars = .ok series) ↔ ∃ points, s.points bars = .ok points := by
  constructor
  · rintro ⟨series, h⟩
    obtain ⟨points, hpoints, -⟩ := except_bind_eq_ok.1 h
    exact ⟨points, hpoints⟩
  · rintro ⟨points, hpoints⟩
    exact ⟨_, except_bind_eq_ok.2 ⟨points, hpoints, rfl⟩⟩

-- Steps that nothing is in the way of.

theorem convergence_answers (fast slow signal : Nat) (state : ConvergenceState α) (m : Moment α) :
    ∃ answer, (convergence fast slow signal).step state m = .ok answer := by
  simp only [convergence]
  split
  · exact ⟨_, rfl⟩
  · split
    · exact ⟨_, rfl⟩
    · split <;> exact ⟨_, rfl⟩

theorem stochastic_answers (kPeriod dPeriod : Nat) (state : List α) (m : Moment α) :
    ∃ answer, (stochastic kPeriod dPeriod).step state m = .ok answer := by
  simp only [stochastic]
  split <;> exact ⟨_, rfl⟩

namespace SeededAverage

-- The average after some values, oldest first.
def after (period : Nat) (blend : α → α → α) (xs : List α) : SeededAverage α :=
  xs.foldl (push period blend) empty

variable {period : Nat} {blend : α → α → α}

theorem after_concat (xs : List α) (x : α) :
    after period blend (xs ++ [x]) = (after period blend xs).push period blend x := by
  rw [after, List.foldl_append]
  rfl

theorem after_seen (xs : List α) : (after period blend xs).seen = xs.length := by
  induction xs using List.reverseRecOn with
  | nil => rfl
  | append_singleton xs x ih => rw [after_concat, push_seen, ih, List.length_append]; rfl

theorem total_after {xs : List α} (h : xs.length ≤ period) :
    (after period blend xs).total = Amount.sum xs := by
  induction xs using List.reverseRecOn with
  | nil => rfl
  | append_singleton xs x ih =>
    rw [List.length_append, List.length_singleton] at h
    rw [after_concat, Amount.sum_concat]
    unfold push
    rw [ih (by omega), after_seen]
    split
    · rfl
    · rw [if_pos (by omega)]

-- Values that fill a period are added up, and later ones are blended into their mean.
theorem average_after (hperiod : 1 ≤ period) {xs : List α} (h : period ≤ xs.length) :
    (after period blend xs).average = (xs.drop period).foldl blend
      (Amount.sum (xs.take period) / Amount.whole period) := by
  induction xs using List.reverseRecOn with
  | nil => exact absurd (hperiod.trans h) (Nat.not_succ_le_zero 0)
  | append_singleton xs x ih =>
    rw [List.length_append, List.length_singleton] at h
    rw [after_concat]
    unfold push
    rw [after_seen, if_neg (by omega)]
    by_cases hfills : xs.length + 1 = period
    · rw [if_pos hfills, List.drop_eq_nil_of_le (by simp [hfills]),
        List.take_of_length_le (by simp [hfills]), total_after (by omega), Amount.sum_concat]
      rfl
    · have hfull : period ≤ xs.length := by omega
      rw [if_neg hfills, List.drop_append_of_le_length hfull, List.take_append_of_le_length hfull,
        List.foldl_append, ih hfull]
      rfl

end SeededAverage

end Indicator

end BarReplay
