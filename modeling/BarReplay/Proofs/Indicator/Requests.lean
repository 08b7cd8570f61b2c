import Mathlib.Data.List.Induction
import Mathlib.Data.List.Pairwise
import BarReplay.Proofs.Indicator.Deviation
import BarReplay.Proofs.Rule.Causal

namespace BarReplay.Indicator

variable {α : Type} [Amount α]

-- The way in which a table answers, wherever its series are calculated.
def Table.getBy {m : Type → Type} [Monad m] (compute : Spec α → m (Series α)) (s : Spec α)
    (t : Table α) : m (Series α × Table α) :=
  match t.find? s with
  | some series => pure (series, t)
  | none => do
    let series ← compute s
    return (series, t ++ [(s, series)])

theorem Table.get_eq_getBy (bars : List (Bar α)) :
    Table.get bars = Table.getBy (Spec.series · bars) :=
  rfl

-- A spec whose series has been calculated, and what came of it.
abbrev Calculation (α : Type) := Spec α × Except Fault (Series α)

def Calculation.entry? (c : Calculation α) : Option (Spec α × Series α) :=
  c.2.toOption.map (c.1, ·)

-- A calculation that is noted down.
def noted (bars : List (Bar α)) (s : Spec α) :
    ExceptT Fault (StateM (List (Calculation α))) (Series α) :=
  fun log => (s.series bars, log ++ [(s, s.series bars)])

-- What a table is asked, and what it says.
inductive Request (α : Type) where
  | get (s : Spec α)
  | contains (s : Spec α)
  | length
  | entries

inductive Reply (α : Type) where
  | series (result : Except Fault (Series α))
  | contained (answer : Bool)
  | length (n : Nat)
  | entries (table : Table α)

def Request.asked? : Request α → Option (Spec α)
  | get s => some s
  | _ => none

-- A table, and the calculations that have been made for it.
structure Cache (α : Type) where
  table : Table α
  log : List (Calculation α)

namespace Cache

def serve (bars : List (Bar α)) (c : Cache α) : Request α → Reply α × Cache α
  | .get s =>
    let log := (Table.getBy (noted bars) s c.table c.log).2
    match Table.get bars s c.table with
    | .ok (series, table) => (.series (.ok series), ⟨table, log⟩)
    | .error f => (.series (.error f), ⟨c.table, log⟩)
  | .contains s => (.contained (c.table.find? s).isSome, c)
  | .length => (.length c.table.length, c)
  | .entries => (.entries c.table, c)

def after (bars : List (Bar α)) (requests : List (Request α)) : Cache α :=
  requests.foldl (fun c r => (c.serve bars r).2) ⟨[], []⟩

variable {bars : List (Bar α)} {c : Cache α} {s : Spec α} {series : Series α} {f : Fault}

-- What is not there is calculated, whatever comes of it.
theorem getBy_noted (h : c.table.find? s = none) :
    (Table.getBy (noted bars) s c.table c.log).2 = c.log ++ [(s, s.series bars)] := by
  simp only [Table.getBy, h]
  simp only [bind, ExceptT.bind, ExceptT.mk, StateT.bind, noted]
  cases s.series bars <;> rfl

-- What is there stays as it is,
theorem serve_get_of_find? (h : c.table.find? s = some series) :
    c.serve bars (.get s) = (.series (.ok series), c) := by
  simp only [serve, Table.get, Table.getBy, h]
  rfl

-- and what is not there is kept if it could be calculated.
theorem serve_get_of_ok (h : c.table.find? s = none) (hs : s.series bars = .ok series) :
    c.serve bars (.get s) =
      (.series (.ok series), ⟨c.table ++ [(s, series)], c.log ++ [(s, .ok series)]⟩) := by
  simp only [serve, getBy_noted h, Table.get, h, hs]
  rfl

theorem serve_get_of_error (h : c.table.find? s = none) (hs : s.series bars = .error f) :
    c.serve bars (.get s) = (.series (.error f), ⟨c.table, c.log ++ [(s, .error f)]⟩) := by
  simp only [serve, getBy_noted h, Table.get, h, hs]
  rfl

end Cache

-- The first of each group of equal specs

theorem Spec.distinct_concat (specs : List (Spec α)) (s : Spec α) :
    Spec.distinct (specs ++ [s]) =
      if (Spec.distinct specs).any s.same then Spec.distinct specs
      else Spec.distinct specs ++ [s] := by
  rw [Spec.distinct, List.foldl_concat]
  rfl

theorem Spec.mem_of_mem_distinct {specs : List (Spec α)} {s : Spec α}
    (h : s ∈ Spec.distinct specs) : s ∈ specs := by
  induction specs using List.reverseRecOn with
  | nil => exact h
  | append_singleton specs u ih =>
    rw [Spec.distinct_concat] at h
    split at h
    · exact List.mem_append_left _ (ih h)
    · obtain h | h := List.mem_append.1 h
      · exact List.mem_append_left _ (ih h)
      · exact List.mem_append_right _ h

theorem Spec.pairwise_distinct (specs : List (Spec α)) :
    (Spec.distinct specs).Pairwise fun s u => s.same u = false := by
  induction specs using List.reverseRecOn with
  | nil => exact .nil
  | append_singleton specs u ih =>
    rw [Spec.distinct_concat]
    split
    · exact ih
    · rename_i hnone
      refine List.pairwise_append.2 ⟨ih, List.pairwise_singleton _ _, ?_⟩
      intro s hs v hv
      rw [List.mem_singleton.1 hv, Spec.same_comm]
      simpa using fun h => hnone (List.any_eq_true.2 ⟨s, hs, h⟩)

-- The specs that have been asked for and could be calculated, the first of those that are equal.
def stored (bars : List (Bar α)) (requests : List (Request α)) : List (Spec α) :=
  Spec.distinct ((requests.filterMap Request.asked?).filter fun s => (s.series bars).isOk)

section Stored

variable {bars : List (Bar α)} {requests : List (Request α)} {s : Spec α}

theorem stored_concat (bars : List (Bar α)) (requests : List (Request α)) (r : Request α) :
    stored bars (requests ++ [r]) =
      match r.asked? with
      | some s =>
        if (s.series bars).isOk && !(stored bars requests).any s.same then
          stored bars requests ++ [s]
        else stored bars requests
      | none => stored bars requests := by
  unfold stored
  rw [List.filterMap_append, List.filter_append]
  cases r with
  | get s =>
    cases hs : (s.series bars).isOk with
    | true =>
      simp only [Request.asked?, List.filterMap_cons, List.filterMap_nil, List.filter_cons, hs,
        List.filter_nil, if_true, Spec.distinct_concat, Bool.true_and]
      cases (Spec.distinct _).any s.same <;> rfl
    | false => simp [Request.asked?, hs]
  | _ => exact congrArg Spec.distinct (List.append_nil _)

theorem exists_series_of_mem_stored (h : s ∈ stored bars requests) :
    ∃ series, s.series bars = .ok series := by
  have hok := (List.mem_filter.1 (Spec.mem_of_mem_distinct h)).2
  cases hs : s.series bars with
  | ok series => exact ⟨series, rfl⟩
  | error f =>
    rw [hs] at hok
    cases hok

end Stored

theorem Table.isSome_find? (t : Table α) (s : Spec α) :
    (t.find? s).isSome = (t.map Prod.fst).any s.same := by
  simp only [find?, Option.isSome_map, List.isSome_find?, List.any_map]
  exact congrArg (List.any t) (funext fun entry => Spec.same_comm entry.1 s)

-- What can be said of a table and its log after some requests.
structure Cache.Holds (bars : List (Bar α)) (requests : List (Request α)) (c : Cache α) :
    Prop where
  keys : c.table.map Prod.fst = stored bars requests
  entries : ∀ entry ∈ c.table, entry.1.series bars = .ok entry.2
  log : c.log.filterMap Calculation.entry? = c.table

namespace Cache

variable {bars : List (Bar α)} {requests : List (Request α)} {c : Cache α}

theorem Holds.any_same (h : c.Holds bars requests) (s : Spec α) :
    (c.table.find? s).isSome = (stored bars requests).any s.same := by
  rw [Table.isSome_find?, h.keys]

theorem Holds.serve (h : c.Holds bars requests) (r : Request α) :
    (c.serve bars r).2.Holds bars (requests ++ [r]) := by
  cases r with
  | get s =>
    have hany := h.any_same s
    cases hfind : c.table.find? s with
    | some series =>
      rw [serve_get_of_find? hfind]
      rw [hfind] at hany
      refine ⟨?_, h.entries, h.log⟩
      rw [h.keys, stored_concat]
      simp [Request.asked?, ← hany]
    | none =>
      rw [hfind] at hany
      cases hs : s.series bars with
      | ok series =>
        rw [serve_get_of_ok hfind hs]
        refine ⟨?_, ?_, ?_⟩
        · rw [List.map_append, h.keys, stored_concat]
          simp [Request.asked?, ← hany, hs, Except.isOk, Except.toBool]
        · intro entry hentry
          obtain hentry | hentry := List.mem_append.1 hentry
          · exact h.entries entry hentry
          · rw [List.mem_singleton.1 hentry]
            exact hs
        · rw [List.filterMap_append, h.log]
          rfl
      | error f =>
        rw [serve_get_of_error hfind hs]
        refine ⟨?_, h.entries, ?_⟩
        · rw [h.keys, stored_concat]
          simp [Request.asked?, hs, Except.isOk, Except.toBool]
        · rw [List.filterMap_append, h.log]
          exact List.append_nil _
  | _ => exact ⟨by rw [stored_concat]; exact h.keys, h.entries, h.log⟩

theorem holds_after (bars : List (Bar α)) (requests : List (Request α)) :
    (after bars requests).Holds bars requests := by
  induction requests using List.reverseRecOn with
  | nil => exact ⟨rfl, nofun, rfl⟩
  | append_singleton requests r ih =>
    rw [after, List.foldl_concat]
    exact ih.serve r

end Cache

-- Whether there are bands does not depend on their width,
theorem exists_bollinger {period : Nat} {a : α} {bars : List (Bar α)} {points : List (Point α)}
    (h : (bollinger period a).run bars = .ok points) (b : α) :
    ∃ points', (bollinger period b).run bars = .ok points' := by
  have hstep : ∀ state m next valid reading, (∀ x ∈ m.bar :: m.earlier, True) →
      (bollinger period a).step state m = .ok (next, valid, reading) →
      ∃ reading', (bollinger period b).step state m = .ok (next, valid, reading') ∧ True := by
    intro state m next valid reading _ hs
    obtain ⟨stats, hstats, hs⟩ := except_bind_eq_ok.1 hs
    cases stats <;> cases hs <;>
      exact ⟨_, except_bind_eq_ok.2 ⟨_, hstats, rfl⟩, trivial⟩
  obtain ⟨state, hstart, h⟩ := except_bind_eq_ok.1 h
  obtain ⟨points', hpoints', -⟩ := Study.walk_rel (R := fun _ _ => True) hstep
    (fun _ _ => trivial) (fun _ _ => trivial) h
  exact ⟨points', except_bind_eq_ok.2 ⟨state, hstart, hpoints'⟩⟩

-- so specs that are equal as numbers are calculated or refused together.
theorem exists_series_of_same {s u : Spec α} (h : s.same u = true) {bars : List (Bar α)}
    (hs : ∃ series, s.series bars = .ok series) : ∃ series, u.series bars = .ok series := by
  obtain rfl | ⟨period, a, b, rfl, rfl, -⟩ := Spec.eq_or_bollinger_of_same h
  · exact hs
  · obtain ⟨series, hs⟩ := hs
    obtain ⟨points, hpoints, -⟩ := except_bind_eq_ok.1 hs
    obtain ⟨points', hpoints'⟩ := exists_bollinger hpoints b
    exact ⟨_, except_bind_eq_ok.2 ⟨points', hpoints', rfl⟩⟩

namespace Cache

variable {bars : List (Bar α)} {requests : List (Request α)} {c : Cache α} {s : Spec α}

-- A spec that cannot be calculated is refused each time,
theorem Holds.serve_get_of_error (h : c.Holds bars requests) {f : Fault}
    (hs : s.series bars = .error f) :
    (c.serve bars (.get s)).1 = .series (.error f) ∧ (c.serve bars (.get s)).2.table = c.table := by
  have hfind : c.table.find? s = none := by
    rw [← Option.not_isSome_iff_eq_none, h.any_same, List.any_eq_true]
    rintro ⟨first, hfirst, hsame⟩
    rw [Spec.same_comm] at hsame
    obtain ⟨series, hseries⟩ := exists_series_of_same hsame (exists_series_of_mem_stored hfirst)
    rw [hs] at hseries
    cases hseries
  rw [Cache.serve_get_of_error hfind hs]
  exact ⟨rfl, rfl⟩

-- and what is stored is never replaced.
theorem table_prefix (bars : List (Bar α)) (c : Cache α) (r : Request α) :
    c.table <+: (c.serve bars r).2.table := by
  cases r with
  | get s =>
    cases hfind : c.table.find? s with
    | some series => simp only [serve_get_of_find? hfind, List.prefix_rfl]
    | none =>
      cases hs : s.series bars with
      | ok series =>
        rw [serve_get_of_ok hfind hs]
        exact List.prefix_append _ _
      | error f => simp only [Cache.serve_get_of_error hfind hs, List.prefix_rfl]
  | _ => exact List.prefix_rfl

-- The keys and the entries, taken together.
theorem Holds.forall₂ (h : c.Holds bars requests) :
    List.Forall₂ (fun s entry => entry.1 = s ∧ s.series bars = .ok entry.2) (stored bars requests)
      c.table := by
  rw [← h.keys, List.forall₂_map_left_iff, List.forall₂_same]
  exact fun entry hentry => ⟨rfl, h.entries entry hentry⟩

-- No two specs of a table are equal.
theorem Holds.pairwise (h : c.Holds bars requests) :
    c.table.Pairwise fun x y => x.1.same y.1 = false := by
  rw [← List.pairwise_map (R := fun s u => Spec.same s u = false), h.keys]
  exact Spec.pairwise_distinct _

section Equal

-- Specs that are equal are equal to the same specs.
variable (hsame : ∀ s t u : Spec α, s.same t = true → u.same s = u.same t)

include hsame

theorem eq_of_same {t : Table α} (h : t.Pairwise fun x y => x.1.same y.1 = false)
    {x y : Spec α × Series α} (hx : x ∈ t) (hy : y ∈ t) (hxs : x.1.same s = true)
    (hys : y.1.same s = true) : x = y := by
  by_contra hne
  have : Std.Symm fun u v : Spec α × Series α => u.1.same v.1 = false :=
    ⟨fun u v huv => by rwa [Spec.same_comm]⟩
  have hapart := h.forall hx hy hne
  rw [hsame _ _ _ hys, hxs] at hapart
  cases hapart

-- A request for an equal spec is answered with what is stored.
theorem Holds.serve_get_of_mem (h : c.Holds bars requests) {entry : Spec α × Series α}
    (hentry : entry ∈ c.table) (hs : entry.1.same s = true) :
    c.serve bars (.get s) = (.series (.ok entry.2), c) := by
  refine serve_get_of_find? ?_
  cases hfind : c.table.find? s with
  | none =>
    have hnone := List.find?_eq_none.1 (Option.map_eq_none_iff.1 hfind) entry hentry
    exact absurd hs hnone
  | some series =>
    obtain ⟨found, hfound, rfl⟩ := Option.map_eq_some_iff.1 hfind
    have hfoundSame : found.1.same s = true := by simpa using List.find?_some hfound
    rw [eq_of_same hsame h.pairwise (List.mem_of_find?_eq_some hfound) hentry hfoundSame hs]

-- At most one calculation for equal specs succeeds.
theorem Holds.countP_le_one (h : c.Holds bars requests) (s : Spec α) :
    c.log.countP (fun m => m.1.same s && m.2.isOk) ≤ 1 := by
  have hcount : c.log.countP (fun m => m.1.same s && m.2.isOk) =
      c.table.countP fun entry => entry.1.same s := by
    rw [← h.log, List.countP_filterMap]
    refine List.countP_congr fun m _ => ?_
    obtain ⟨u, result⟩ := m
    cases result <;> simp [Calculation.entry?, Except.isOk, Except.toBool, Except.toOption]
  rw [hcount, List.countP_eq_length_filter]
  have hpairwise := h.pairwise.filter fun entry => entry.1.same s
  have hall : ∀ x ∈ c.table.filter fun entry => entry.1.same s, x.1.same s = true :=
    fun x hx => (List.mem_filter.1 hx).2
  generalize c.table.filter (fun entry => entry.1.same s) = equal at hpairwise hall
  cases equal with
  | nil => exact Nat.zero_le 1
  | cons x equal =>
    cases equal with
    | nil => exact le_rfl
    | cons y rest =>
      have hx := hall x List.mem_cons_self
      have hy := hall y (List.mem_cons_of_mem _ List.mem_cons_self)
      have hapart := List.rel_of_pairwise_cons hpairwise List.mem_cons_self
      rw [hsame _ _ _ hy, hx] at hapart
      cases hapart

end Equal

end Cache

namespace Table

open Amount

-- Requests in any number are answered as if each series had been calculated for them. After some
-- requests the table has the first of equal specs that could be calculated, in the order of the
-- requests, with their own series, and keeps them; each was calculated once. A request for a spec
-- that is equal to one of them gets what is stored, one for a spec that cannot be calculated fails
-- whenever it is made, and the other requests tell what the table has. Where the stored bands
-- belong to the other zero, what is read is the same numbers.
-- The running programs are the case of their own powers.
theorem requests_transparent (pow : Float → Float → Float) (bars : List (Bar Float))
    (requests : List (Request Float)) :
    letI := powered pow
    let cache := Cache.after bars requests
    let keys := stored bars requests
    List.Forall₂ (fun s entry => entry.1 = s ∧ s.series bars = .ok entry.2) keys cache.table ∧
    keys.Pairwise (fun s u => s.same u = false) ∧
    (∀ r, cache.table <+: (cache.serve bars r).2.table) ∧
    cache.log.filterMap Calculation.entry? = cache.table ∧
    (∀ s, cache.log.countP (fun m => m.1.same s && m.2.isOk) ≤ 1) ∧
    (∀ s, ∀ entry ∈ cache.table, entry.1.same s = true →
      cache.serve bars (.get s) = (.series (.ok entry.2), cache)) ∧
    (∀ s series, keys.any s.same = false → s.series bars = .ok series →
      (cache.serve bars (.get s)).1 = .series (.ok series)) ∧
    (∀ s f, s.series bars = .error f →
      (cache.serve bars (.get s)).1 = .series (.error f) ∧
      (cache.serve bars (.get s)).2.table = cache.table ∧
      ((cache.serve bars (.get s)).2.serve bars (.get s)).1 = .series (.error f)) ∧
    (∀ s, cache.serve bars (.contains s) = (.contained (keys.any s.same), cache)) ∧
    cache.serve bars .length = (.length keys.length, cache) ∧
    cache.serve bars .entries = (.entries cache.table, cache) ∧
    (Squares pow → (∀ b ∈ bars, b.close.isFinite = true) → ∀ period a b, 1 ≤ period →
      same a 0 = true → same b 0 = true → .bollinger period a ∈ keys →
      ∃ series direct,
        cache.serve bars (.get (.bollinger period b)) = (.series (.ok series), cache) ∧
        (Spec.bollinger period b).series bars = .ok direct ∧
        List.Forall₂ Point.Same series.points direct.points ∧
        ∀ index f, Option.Rel (fun x y => same x y = true) (series.valueAt? index f)
          (direct.valueAt? index f)) := by
  let := powered pow
  intro cache keys
  have h : cache.Holds bars requests := Cache.holds_after bars requests
  have hsame : ∀ s t u : Spec Float, s.same t = true → u.same s = u.same t := by
    intro s t u hst
    rw [spec_same_powered pow] at hst
    rw [spec_same_powered pow, spec_same_powered pow, Spec.same_right_of_same hst]
  refine ⟨h.forall₂, Spec.pairwise_distinct _, Cache.table_prefix bars cache, h.log,
    h.countP_le_one hsame, fun s entry hentry hs => h.serve_get_of_mem hsame hentry hs,
    fun s series hs hseries => ?found, fun s f hs => ?failed, fun s => ?contains, ?length, rfl,
    fun hpow hcloses period a b hperiod ha hb hmem => ?bands⟩
  case found =>
    have hfind : cache.table.find? s = none := by
      rw [← Option.not_isSome_iff_eq_none, h.any_same, hs]
      exact Bool.false_ne_true
    rw [Cache.serve_get_of_ok hfind hseries]
  case failed =>
    obtain ⟨hreply, htable⟩ := h.serve_get_of_error hs
    exact ⟨hreply, htable, ((h.serve (.get s)).serve_get_of_error hs).1⟩
  case contains => exact congrArg (fun answer => (Reply.contained answer, cache)) (h.any_same s)
  case length => exact congrArg (fun n => (Reply.length n, cache)) h.forall₂.length_eq.symm
  case bands =>
    rw [same_powered pow] at ha hb
    have hboth : Spec.same (.bollinger period a) (.bollinger period b : Spec Float) = true := by
      rw [spec_same_powered pow]
      simp only [Spec.same, beq_self_eq_true, Bool.true_and,
        ((Double.alike_of_same hb).same_left a).trans ha]
    change Spec.bollinger period a ∈ stored bars requests at hmem
    rw [← h.keys] at hmem
    obtain ⟨⟨_, series⟩, hentry, rfl⟩ := List.mem_map.1 hmem
    have hreply := h.serve_get_of_mem hsame hentry hboth
    obtain ⟨direct, hdirect, hread⟩ :=
      bollinger_series_same hpow hperiod ha hb hcloses (h.entries _ hentry)
    refine ⟨series, direct, hreply, hdirect, ?_⟩
    simpa only [same_powered pow] using hread

-- Two closes, bands without a width around them, and weights that are too large.
def twoCloses : List (Bar Float) :=
  climb.take 2

def flat : Spec Float :=
  .bollinger 2 0.0

def heavy : Spec Float :=
  .windowed .wma (10 ^ 200)

theorem isOk_flat :
    letI := powered fun x _ => x * x
    (flat.series twoCloses).isOk = true := by
  decide

theorem heavy_eq_error :
    letI := powered fun x _ => x * x
    heavy.series twoCloses = .error .overflow := by
  let := powered fun x _ => x * x
  obtain ⟨f, hf, hoverflow⟩ := except_exists_error (r := heavy.series twoCloses)
    (p := fun f => decide (f = .overflow)) (by decide +kernel)
  rw [hf, of_decide_eq_true hoverflow]

theorem stored_flat :
    letI := powered fun x _ => x * x
    stored twoCloses [.get flat, .get heavy] = [flat] := by
  let := powered fun x _ => x * x
  have hheavy : ¬ (heavy.series twoCloses).isOk = true := by
    rw [heavy_eq_error]
    exact Bool.false_ne_true
  have hasked : [Request.get flat, .get heavy].filterMap Request.asked? = [flat, heavy] := rfl
  have hflat := isOk_flat
  have hfilter : [flat, heavy].filter (fun s => (s.series twoCloses).isOk) = [flat] := by
    rw [List.filter_cons_of_pos (by exact hflat), List.filter_cons_of_neg (by exact hheavy),
      List.filter_nil]
  rw [stored, hasked, hfilter]
  rfl

theorem requests_transparent_other_zero :
    letI := powered fun x _ => x * x
    let cache := Cache.after twoCloses [.get flat, .get heavy]
    (∃ series direct,
      cache.serve twoCloses (.get (.bollinger 2 (-0.0))) = (.series (.ok series), cache) ∧
      (Spec.bollinger 2 (-0.0)).series twoCloses = .ok direct ∧
      List.Forall₂ Point.Same series.points direct.points) ∧
    (cache.serve twoCloses (.get heavy)).1 = .series (.error .overflow) := by
  let := powered fun x _ => x * x
  intro cache
  obtain ⟨-, -, -, -, -, -, -, hfailed, -, -, -, hbands⟩ :=
    requests_transparent (fun x _ => x * x) twoCloses [.get flat, .get heavy]
  have hcloses : ∀ b ∈ twoCloses, b.close.isFinite = true := by decide
  have hstored : flat ∈ stored twoCloses [.get flat, .get heavy] := by
    rw [stored_flat]
    exact List.mem_singleton_self _
  obtain ⟨series, direct, hreply, hdirect, hsame, -⟩ := hbands squares_mul hcloses 2 0.0 (-0.0)
    (by decide) (by decide) (by decide) hstored
  exact ⟨⟨series, direct, hreply, hdirect, hsame⟩, (hfailed _ _ heavy_eq_error).1⟩

end Table

end BarReplay.Indicator
