import Mathlib.Data.List.Forall2
import BarReplay.Indicator.Table
import BarReplay.Proofs.Decimal.Zeros
import BarReplay.Proofs.Except

namespace BarReplay.Indicator

-- Points that differ in the signs of zeros only.
structure Point.Alike (p q : Point Float) : Prop where
  valid : p.valid = q.valid
  reading : ∀ f, Option.Rel Double.Alike (p.reading.get? f) (q.reading.get? f)

theorem Point.Alike.refl (p : Point Float) : p.Alike p where
  valid := rfl
  reading _ := Double.Alike.option_refl _

def Series.Alike (s t : Series Float) : Prop :=
  List.Forall₂ Point.Alike s.points t.points

theorem Series.Alike.refl (s : Series Float) : s.Alike s :=
  List.forall₂_same.2 fun p _ => .refl p

-- What is read from points that are related bar by bar.
theorem Series.valueAt?_rel {α : Type} {R : α → α → Prop} {s t : Series α}
    (h : List.Forall₂ (fun p q => p.valid = q.valid ∧
      ∀ f, Option.Rel R (p.reading.get? f) (q.reading.get? f)) s.points t.points)
    (index : Int) (f : Field) : Option.Rel R (s.valueAt? index f) (t.valueAt? index f) := by
  unfold Series.valueAt?
  split
  · exact .none
  obtain ⟨hlength, hget⟩ := List.forall₂_iff_get.1 h
  by_cases hi : index.toNat < s.points.length
  · obtain ⟨hvalid, hreading⟩ := hget index.toNat hi (hlength ▸ hi)
    simp only [List.get_eq_getElem] at hvalid hreading
    simp only [List.getElem?_eq_getElem hi, List.getElem?_eq_getElem (hlength ▸ hi), hvalid]
    split
    · exact hreading f
    · exact .none
  · rw [List.getElem?_eq_none (by omega), List.getElem?_eq_none (by omega)]
    exact .none

theorem Series.Alike.valueAt? {s t : Series Float} (h : s.Alike t) (index : Int) (f : Field) :
    Option.Rel Double.Alike (s.valueAt? index f) (t.valueAt? index f) :=
  Series.valueAt?_rel (h.imp fun _ _ halike => ⟨halike.valid, halike.reading⟩) index f

-- Machines that start alike and have related answers to each bar, where the bars are of a kind.
theorem Study.walk_rel {α σ : Type} {s t : Study α σ} {P : Bar α → Prop}
    {R : Reading α → Reading α → Prop}
    (hstep : ∀ state m next valid reading, (∀ b ∈ m.bar :: m.earlier, P b) →
      s.step state m = .ok (next, valid, reading) →
      ∃ reading', t.step state m = .ok (next, valid, reading') ∧ R reading reading')
    {state : σ} {earlier bars : List (Bar α)} {points : List (Point α)}
    (hearlier : ∀ b ∈ earlier, P b) (hbars : ∀ b ∈ bars, P b)
    (h : s.walk state earlier bars = .ok points) :
    ∃ points', t.walk state earlier bars = .ok points' ∧
      List.Forall₂ (fun p q => p.date = q.date ∧ p.valid = q.valid ∧ R p.reading q.reading)
        points points' := by
  induction bars generalizing state earlier points with
  | nil =>
    cases h
    exact ⟨[], rfl, .nil⟩
  | cons b bars ih =>
    obtain ⟨⟨next, valid, reading⟩, hs, h⟩ := except_bind_eq_ok.1 h
    obtain ⟨rest, hrest, h⟩ := except_bind_eq_ok.1 h
    cases h
    obtain ⟨hb, hbars⟩ := List.forall_mem_cons.1 hbars
    have hshown : ∀ c ∈ b :: earlier, P c := List.forall_mem_cons.2 ⟨hb, hearlier⟩
    obtain ⟨reading', ht, hreading⟩ := hstep _ _ _ _ _ hshown hs
    obtain ⟨rest', hrest', hpoints⟩ := ih hshown hbars hrest
    exact ⟨_, except_bind_eq_ok.2 ⟨_, ht, except_bind_eq_ok.2 ⟨rest', hrest', rfl⟩⟩,
      .cons ⟨rfl, rfl, hreading⟩ hpoints⟩

-- Machines that start alike and answer each bar alike give points that are alike.
theorem Study.walk_alike {σ : Type} {s t : Study Float σ}
    (hstep : ∀ state m next valid reading, s.step state m = .ok (next, valid, reading) →
      ∃ reading', t.step state m = .ok (next, valid, reading') ∧
        ∀ f, Option.Rel Double.Alike (reading.get? f) (reading'.get? f))
    {state : σ} {earlier bars : List (Bar Float)} {points : List (Point Float)}
    (h : s.walk state earlier bars = .ok points) :
    ∃ points', t.walk state earlier bars = .ok points' ∧
      List.Forall₂ Point.Alike points points' := by
  obtain ⟨points', hpoints', hrel⟩ := Study.walk_rel (P := fun _ => True)
    (fun _ _ _ _ _ _ => hstep _ _ _ _ _) (fun _ _ => trivial) (fun _ _ => trivial) h
  exact ⟨points', hpoints', hrel.imp fun _ _ ⟨_, hvalid, hreading⟩ => ⟨hvalid, hreading⟩⟩

-- Bands whose widths are alike.
theorem bollinger_alike {a b : Float} (hab : Double.Alike a b) (period : Nat)
    {bars : List (Bar Float)} {points : List (Point Float)}
    (h : (bollinger period a).run bars = .ok points) :
    ∃ points', (bollinger period b).run bars = .ok points' ∧
      List.Forall₂ Point.Alike points points' := by
  have hstep : ∀ state m next valid reading,
      (bollinger period a).step state m = .ok (next, valid, reading) →
      ∃ reading', (bollinger period b).step state m = .ok (next, valid, reading') ∧
        ∀ f, Option.Rel Double.Alike (reading.get? f) (reading'.get? f) := by
    intro state m next valid reading hs
    obtain ⟨stats, hstats, hs⟩ := except_bind_eq_ok.1 hs
    cases stats with
    | none =>
      cases hs
      exact ⟨_, except_bind_eq_ok.2 ⟨_, hstats, rfl⟩, fun _ => Double.Alike.option_refl _⟩
    | some stats =>
      cases hs
      refine ⟨_, except_bind_eq_ok.2 ⟨_, hstats, rfl⟩, fun f => ?_⟩
      have hband := hab.mul_right stats.2
      cases f with
      | upper => exact .some (hband.add_left _)
      | middle => exact .some (.refl _)
      | lower => exact .some (hband.sub_left _)
      | _ => exact .none
  obtain ⟨state, hstart, h⟩ := except_bind_eq_ok.1 h
  obtain ⟨points', hpoints', halike⟩ := Study.walk_alike hstep h
  exact ⟨points', except_bind_eq_ok.2 ⟨state, hstart, hpoints'⟩, halike⟩

namespace Spec

-- Specs that are the same as numbers are the same, or Bollinger bands with widths that are.
theorem eq_or_bollinger_of_same {α : Type} [Amount α] {s t : Spec α} (h : s.same t = true) :
    s = t ∨ ∃ period a b, s = bollinger period a ∧ t = bollinger period b ∧
      Amount.same a b = true := by
  cases s <;> cases t <;> simp_all [same]

-- They are the same as the same specs,
theorem same_right_of_same {s t : Spec Float} (h : s.same t = true) (u : Spec Float) :
    u.same s = u.same t := by
  obtain rfl | ⟨period, a, b, rfl, rfl, hab⟩ := eq_or_bollinger_of_same h
  · rfl
  · cases u with
    | bollinger n c => simp only [same, (Double.alike_of_same hab).same_left c]
    | _ => rfl

theorem same_comm {α : Type} [Amount α] (s t : Spec α) : s.same t = t.same s := by
  have hsymm {s t : Spec α} (h : s.same t = true) : t.same s = true := by
    obtain rfl | ⟨period, a, b, rfl, rfl, hab⟩ := eq_or_bollinger_of_same h
    · exact h
    · simpa only [same, beq_self_eq_true, Bool.true_and, Amount.same, Bool.and_comm] using hab
  exact Bool.eq_iff_iff.2 ⟨hsymm, hsymm⟩

-- A valid spec is the same as itself: its width is a number.
theorem Valid.same_self {s : Spec Float} (h : s.Valid) : s.same s = true := by
  cases s with
  | bollinger n m => simp only [same, beq_self_eq_true, Bool.true_and, Double.same_self h.2.1]
  | _ => simp [same]

-- and their series differ in the signs of zeros only.
theorem series_alike {s t : Spec Float} (h : s.same t = true) {bars : List (Bar Float)}
    {series : Series Float} (hs : s.series bars = .ok series) :
    ∃ series', t.series bars = .ok series' ∧ series.Alike series' := by
  obtain rfl | ⟨period, a, b, rfl, rfl, hab⟩ := eq_or_bollinger_of_same h
  · exact ⟨series, hs, .refl series⟩
  · obtain ⟨points, hpoints, hs⟩ := except_bind_eq_ok.1 hs
    cases hs
    obtain ⟨points', hpoints', halike⟩ :=
      bollinger_alike (Double.alike_of_same hab) period hpoints
    exact ⟨_, except_bind_eq_ok.2 ⟨points', hpoints', rfl⟩, halike⟩

end Spec

namespace Table

section Requests

variable {α : Type} [Amount α] {bars : List (Bar α)} {s : Spec α} {specs : List (Spec α)}
  {t last : Table α}

-- A table answers with what it has, and takes up at its end what it has not.
theorem get_eq_ok_iff {series : Series α} {next : Table α} :
    get bars s t = .ok (series, next) ↔
      t.find? s = some series ∧ next = t ∨
        t.find? s = none ∧ s.series bars = .ok series ∧ next = t ++ [(s, series)] := by
  unfold get
  cases t.find? s with
  | some found => simp [eq_comm]
  | none =>
    rw [except_bind_eq_ok]
    constructor
    · rintro ⟨_, hseries, h⟩
      cases h
      exact .inr ⟨rfl, hseries, rfl⟩
    · rintro (⟨h, -⟩ | ⟨-, hseries, rfl⟩)
      · cases h
      · exact ⟨_, hseries, rfl⟩

theorem exists_get (h : ∃ series, s.series bars = .ok series) (t : Table α) :
    ∃ series next, get bars s t = .ok (series, next) := by
  obtain ⟨series, hseries⟩ := h
  cases hfind : t.find? s with
  | some found => exact ⟨_, _, get_eq_ok_iff.2 (.inl ⟨hfind, rfl⟩)⟩
  | none => exact ⟨_, _, get_eq_ok_iff.2 (.inr ⟨hfind, hseries, rfl⟩)⟩

-- Requests in turn are the first one, and those that follow with what it has left.
theorem foldlM_cons_eq_ok :
    (s :: specs).foldlM (fun t s => do return (← t.get bars s).2) t = .ok last ↔
      ∃ series next, get bars s t = .ok (series, next) ∧
        specs.foldlM (fun t s => do return (← t.get bars s).2) next = .ok last := by
  rw [List.foldlM_cons, except_bind_eq_ok]
  constructor
  · rintro ⟨next, hnext, hlast⟩
    obtain ⟨⟨series, _⟩, hget, hnext⟩ := except_bind_eq_ok.1 hnext
    cases hnext
    exact ⟨series, _, hget, hlast⟩
  · rintro ⟨series, next, hget, hlast⟩
    exact ⟨next, except_bind_eq_ok.2 ⟨_, hget, rfl⟩, hlast⟩

-- Only a series that cannot be computed is in the way of a table.
theorem exists_foldlM (h : ∀ s ∈ specs, ∃ series, s.series bars = .ok series) (t : Table α) :
    ∃ last, specs.foldlM (fun t s => do return (← t.get bars s).2) t = .ok last := by
  induction specs generalizing t with
  | nil => exact ⟨t, rfl⟩
  | cons s specs ih =>
    obtain ⟨series, next, hget⟩ := exists_get (h s List.mem_cons_self) t
    obtain ⟨last, hlast⟩ := ih (fun u hu => h u (List.mem_cons_of_mem _ hu)) next
    exact ⟨last, foldlM_cons_eq_ok.2 ⟨series, next, hget, hlast⟩⟩

-- What a request over some bars makes of each table, one over other bars makes of its image. Then
-- so do requests in turn.
theorem foldlM_map {others : List (Bar α)} {g : Table α → Table α}
    (hget : ∀ {s t series next}, get bars s t = .ok (series, next) →
      ∃ series', get others s (g t) = .ok (series', g next))
    (h : specs.foldlM (fun t s => do return (← t.get bars s).2) t = .ok last) :
    specs.foldlM (fun t s => do return (← t.get others s).2) (g t) = .ok (g last) := by
  induction specs generalizing t with
  | nil =>
    cases h
    rfl
  | cons s specs ih =>
    obtain ⟨series, next, hnext, hlast⟩ := foldlM_cons_eq_ok.1 h
    obtain ⟨series', hnext'⟩ := hget hnext
    exact foldlM_cons_eq_ok.2 ⟨series', g next, hnext', ih hlast⟩

end Requests

-- Every series of the table is the one of its spec.
def Sound (bars : List (Bar Float)) (t : Table Float) : Prop :=
  ∀ entry ∈ t, entry.1.series bars = .ok entry.2

theorem find?_of_same {s u : Spec Float} (h : s.same u = true) (t : Table Float) :
    t.find? s = t.find? u := by
  simp only [find?, Spec.same_right_of_same h]

-- What is found for a spec in such a table is the series of the spec, but for signs of zeros.
theorem Sound.of_find? {bars : List (Bar Float)} {t : Table Float} (ht : t.Sound bars)
    {s : Spec Float} {series : Series Float} (h : t.find? s = some series) :
    ∃ direct, s.series bars = .ok direct ∧ series.Alike direct := by
  obtain ⟨entry, hfind, rfl⟩ := Option.map_eq_some_iff.1 h
  have hsame : entry.1.same s = true := by simpa using List.find?_some hfind
  exact Spec.series_alike hsame (ht entry (List.mem_of_find?_eq_some hfind))

theorem get_sound {bars : List (Bar Float)} {s : Spec Float} {t next : Table Float}
    {series : Series Float} (h : get bars s t = .ok (series, next)) (ht : t.Sound bars) :
    next.Sound bars ∧ (∀ u, (t.find? u).isSome = true → (next.find? u).isSome = true) ∧
      (s.same s = true → (next.find? s).isSome = true) := by
  obtain ⟨hfind, rfl⟩ | ⟨-, hseries, rfl⟩ := get_eq_ok_iff.1 h
  · exact ⟨ht, fun _ => id, fun _ => by rw [hfind]; rfl⟩
  · refine ⟨fun entry hentry => ?_, fun u hu => ?_, fun hself => ?_⟩
    · obtain hentry | hentry := List.mem_append.1 hentry
      · exact ht entry hentry
      · rw [List.mem_singleton.1 hentry]
        exact hseries
    · simp only [find?, Option.isSome_map, List.find?_append, Option.isSome_or] at hu ⊢
      rw [hu, Bool.true_or]
    · simp [find?, List.find?_append, hself]

-- A table after asking for some more specs in turn.
def extend (bars : List (Bar Float)) (specs : List (Spec Float)) (t : Table Float) :
    Except Fault (Table Float) :=
  specs.foldlM (fun t s => do return (← t.get bars s).2) t

-- Asking for specs in turn leaves a series for each of them, and for those there were.
theorem extend_sound {bars : List (Bar Float)} {specs : List (Spec Float)} {t last : Table Float}
    (ht : t.Sound bars) (h : extend bars specs t = .ok last) :
    last.Sound bars ∧ (∀ u, (t.find? u).isSome = true → (last.find? u).isSome = true) ∧
      ∀ s ∈ specs, s.same s = true → (last.find? s).isSome = true := by
  induction specs generalizing t with
  | nil =>
    cases h
    exact ⟨ht, fun _ => id, by simp⟩
  | cons s specs ih =>
    obtain ⟨series, next, hget, h⟩ := foldlM_cons_eq_ok.1 h
    obtain ⟨hsound, hkept, hfound⟩ := get_sound hget ht
    obtain ⟨hlast, hlater, hrest⟩ := ih hsound h
    refine ⟨hlast, fun u hu => hlater u (hkept u hu), fun u hu hself => ?_⟩
    obtain rfl | hu := List.mem_cons.1 hu
    · exact hlater u (hfound hself)
    · exact hrest u hu hself

theorem ofSpecs_sound {bars : List (Bar Float)} {specs : List (Spec Float)} {t : Table Float}
    (h : ofSpecs bars specs = .ok t) :
    t.Sound bars ∧ ∀ s ∈ specs, s.same s = true → (t.find? s).isSome = true := by
  obtain ⟨hsound, -, hfound⟩ := extend_sound (t := []) (by simp [Sound]) h
  exact ⟨hsound, hfound⟩

end Table

end BarReplay.Indicator
