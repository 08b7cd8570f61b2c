import Mathlib.Data.List.Induction
import Mathlib.Data.List.Lex
import BarReplay.Proofs.Indicator.Table
import BarReplay.Strategy

namespace BarReplay

open Indicator

variable {α β : Type}

-- Where a spec is read: the way down to it, as the number of the part that is taken at each step.
-- An operand is either the reading of a spec or reads none.
inductive Operand.ReadsAt : Operand α → List Nat → Spec α → Prop
  | reading (s : Spec α) (f : Field) : ReadsAt (.reading s f) [] s

inductive Rule.ReadsAt : Rule α → List Nat → Spec α → Prop
  | left {c l r path s} : l.ReadsAt path s → ReadsAt (.compare c l r) (0 :: path) s
  | right {c l r path s} : r.ReadsAt path s → ReadsAt (.compare c l r) (1 :: path) s
  | between {o lower upper path s} :
      o.ReadsAt path s → ReadsAt (.between o lower upper) (0 :: path) s
  | all {rs i r path s} : rs[i]? = some r → ReadsAt r path s → ReadsAt (.all rs) (i :: path) s
  | any {rs i r path s} : rs[i]? = some r → ReadsAt r path s → ReadsAt (.any rs) (i :: path) s
  | not {r path s} : ReadsAt r path s → ReadsAt (.not r) (0 :: path) s
  | consecutive {r n path s} : ReadsAt r path s → ReadsAt (.consecutive r n) (0 :: path) s
  | anyOf {r n path s} : ReadsAt r path s → ReadsAt (.anyOf r n) (0 :: path) s

-- The rules that a strategy can have, in order.
def Strategy.slots (s : Strategy α) : List (Option (Rule α)) :=
  [some s.entryLong, some s.exitLong, s.entryShort, s.exitShort]

def Strategy.ReadsAt (s : Strategy α) (path : List Nat) (t : Spec α) : Prop :=
  ∃ slot rest r, path = slot :: rest ∧ s.slots[slot]? = some (some r) ∧ r.ReadsAt rest t

namespace Indicator.Spec

-- Specs in the order of the places where they are read, one for each place.
def InOrder (At : List Nat → Spec α → Prop) (specs : List (Spec α)) : Prop :=
  ∃ sites : List (List Nat × Spec α), sites.map Prod.snd = specs ∧
    sites.Pairwise (fun x y => x.1 < y.1) ∧ ∀ path s, (path, s) ∈ sites ↔ At path s

-- A place where a spec is read that is not the same as one which is read further to the front.
def First [Amount α] (At : List Nat → Spec α → Prop) (path : List Nat) (s : Spec α) : Prop :=
  At path s ∧ ∀ path' s', path' < path → At path' s' → s'.same s = false

namespace InOrder

theorem congr {At At' : List Nat → Spec α → Prop} {specs : List (Spec α)} (h : InOrder At specs)
    (hsame : ∀ path s, At path s ↔ At' path s) : InOrder At' specs := by
  obtain ⟨sites, hspecs, hsorted, hmem⟩ := h
  exact ⟨sites, hspecs, hsorted, fun path s => (hmem path s).trans (hsame path s)⟩

theorem nil {At : List Nat → Spec α → Prop} (h : ∀ path s, ¬ At path s) : InOrder At [] :=
  ⟨[], rfl, .nil, fun path s => iff_of_false List.not_mem_nil (h path s)⟩

-- Parts are read one after the other.
theorem parts {At : β → List Nat → Spec α → Prop} {specs : β → List (Spec α)} {xs : List β}
    (h : ∀ x ∈ xs, InOrder (At x) (specs x)) :
    InOrder (fun path s => ∃ i rest x, path = i :: rest ∧ xs[i]? = some x ∧ At x rest s)
      (xs.flatMap specs) := by
  suffices hgen : ∀ k, InOrder
      (fun path s => ∃ i rest x, path = (k + i) :: rest ∧ xs[i]? = some x ∧ At x rest s)
      (xs.flatMap specs) by
    simpa only [Nat.zero_add] using hgen 0
  induction xs with
  | nil => exact fun k => ⟨[], rfl, .nil, by simp⟩
  | cons x xs ih =>
    intro k
    obtain ⟨first, hspecs, hsorted, hmem⟩ := h x List.mem_cons_self
    obtain ⟨later, hlater, hsortedLater, hmemLater⟩ :=
      ih (fun y hy => h y (List.mem_cons_of_mem _ hy)) (k + 1)
    refine ⟨first.map (fun y => (k :: y.1, y.2)) ++ later, ?_, ?_, fun path s => ?_⟩
    · rw [List.map_append, List.map_map, hlater, List.flatMap_cons, ← hspecs]
      rfl
    · refine List.pairwise_append.2 ⟨List.pairwise_map.2 ?_, hsortedLater, fun y hy z hz => ?_⟩
      · exact hsorted.imp fun hlt => List.cons_lt_cons_iff.2 (.inr ⟨rfl, hlt⟩)
      · -- what is read in a later part has a larger number in front
        obtain ⟨y, -, rfl⟩ := List.mem_map.1 hy
        obtain ⟨i, rest, -, hpath, -⟩ := (hmemLater z.1 z.2).1 hz
        rw [hpath]
        exact List.cons_lt_cons_iff.2 (.inl (by omega))
    · rw [List.mem_append, List.mem_map, hmemLater]
      constructor
      · rintro (⟨⟨rest, s⟩, hy, heq⟩ | ⟨i, rest, y, rfl, hy, hat⟩)
        · cases heq
          exact ⟨0, rest, x, rfl, rfl, (hmem rest s).1 hy⟩
        · exact ⟨i + 1, rest, y, by rw [Nat.add_right_comm, Nat.add_assoc], hy, hat⟩
      · rintro ⟨i, rest, y, rfl, hy, hat⟩
        cases i with
        | zero =>
          cases hy
          exact .inl ⟨(rest, s), (hmem rest s).2 hat, rfl⟩
        | succ i => exact .inr ⟨i, rest, y, by rw [Nat.add_right_comm, Nat.add_assoc], hy, hat⟩

theorem only {At : List Nat → Spec α → Prop} {specs : List (Spec α)} (h : InOrder At specs) :
    InOrder (fun path s => ∃ rest, path = 0 :: rest ∧ At rest s) specs := by
  have hunit : ∀ x ∈ [()], InOrder (fun path s => At path s) specs := fun _ _ => h
  have hparts := parts hunit
  rw [List.flatMap_singleton] at hparts
  refine hparts.congr fun path s => ?_
  constructor
  · rintro ⟨i, rest, x, rfl, hx, hat⟩
    cases i with
    | zero => exact ⟨rest, rfl, hat⟩
    | succ i => cases hx
  · rintro ⟨rest, rfl, hat⟩
    exact ⟨0, rest, (), rfl, rfl, hat⟩

theorem mem_iff {At : List Nat → Spec α → Prop} {specs : List (Spec α)} (h : InOrder At specs)
    {s : Spec α} : s ∈ specs ↔ ∃ path, At path s := by
  obtain ⟨sites, rfl, -, hmem⟩ := h
  simp only [List.mem_map, Prod.exists, exists_eq_right, hmem]

-- A place for each spec, in order.
theorem pairwise_of_first [Amount α] {At : List Nat → Spec α → Prop} {specs : List (Spec α)}
    (h : InOrder (First At) specs) : specs.Pairwise fun s t => s.same t = false := by
  obtain ⟨sites, rfl, hsorted, hmem⟩ := h
  refine List.pairwise_map.2 (hsorted.imp_of_mem fun {x y} hx hy hlt => ?_)
  exact ((hmem y.1 y.2).1 hy).2 x.1 x.2 hlt ((hmem x.1 x.2).1 hx).1

end InOrder

section Distinct

variable {specs : List (Spec Float)}

theorem distinct_append (specs : List (Spec Float)) (s : Spec Float) :
    distinct (specs ++ [s]) =
      if (distinct specs).any s.same then distinct specs else distinct specs ++ [s] := by
  rw [distinct, List.foldl_append]
  rfl

-- Each spec is still there afterwards, or the same one is.
theorem any_distinct (specs : List (Spec Float)) (u : Spec Float) :
    (distinct specs).any u.same = specs.any u.same := by
  induction specs using List.reverseRecOn with
  | nil => rfl
  | append_singleton specs s ih =>
    rw [distinct_append, List.any_append, List.any_cons, List.any_nil, Bool.or_false, ← ih]
    split
    · rename_i hseen
      cases hus : u.same s with
      | false => rw [Bool.or_false]
      | true =>
        rw [Bool.or_true]
        obtain ⟨t, ht, hst⟩ := List.any_eq_true.1 hseen
        exact List.any_eq_true.2 ⟨t, ht, by rw [← same_right_of_same hst, hus]⟩
    · rw [List.any_append, List.any_cons, List.any_nil, Bool.or_false]

-- No place in front of this one reads the same.
def Leads (sites : List (List Nat × Spec Float)) (x : List Nat × Spec Float) : Prop :=
  ∀ y ∈ sites, y.1 < x.1 → y.2.same x.2 = false

section Last

variable {sites : List (List Nat × Spec Float)} {x : List Nat × Spec Float}
  (hlast : ∀ y ∈ sites, y.1 < x.1)
include hlast

-- What comes last changes nothing for the others,
theorem leads_append_of_mem {z : List Nat × Spec Float} (hz : z ∈ sites) :
    Leads (sites ++ [x]) z ↔ Leads sites z := by
  unfold Leads
  rw [List.forall_mem_append]
  refine and_iff_left fun y hy hlt => ?_
  rw [List.mem_singleton.1 hy] at hlt
  exact absurd hlt (lt_asymm (hlast z hz))

-- and it leads if none of the others reads the same.
theorem leads_append_last :
    Leads (sites ++ [x]) x ↔ (sites.map Prod.snd).any x.2.same = false := by
  have hself : ∀ y ∈ [x], y.1 < x.1 → y.2.same x.2 = false := by
    intro y hy hlt
    rw [List.mem_singleton.1 hy] at hlt
    exact absurd hlt (lt_irrefl _)
  unfold Leads
  rw [List.forall_mem_append, and_iff_left hself, List.any_eq_false, List.forall_mem_map]
  refine forall₂_congr fun y hy => ?_
  rw [imp_iff_right (hlast y hy), same_comm, Bool.not_eq_true]

end Last

-- Leaving out repetitions keeps the places that lead.
theorem exists_leading {sites : List (List Nat × Spec Float)}
    (hsorted : sites.Pairwise fun x y => x.1 < y.1) :
    ∃ firsts : List (List Nat × Spec Float),
      firsts.map Prod.snd = distinct (sites.map Prod.snd) ∧ firsts.Sublist sites ∧
        ∀ x ∈ sites, x ∈ firsts ↔ Leads sites x := by
  induction sites using List.reverseRecOn with
  | nil => exact ⟨[], rfl, .slnil, by simp⟩
  | append_singleton sites x ih =>
    obtain ⟨hsorted, -, hlast⟩ := List.pairwise_append.1 hsorted
    obtain ⟨firsts, hspecs, hsub, hfirsts⟩ := ih hsorted
    have hlast (y) (hy : y ∈ sites) : y.1 < x.1 := hlast y hy x List.mem_cons_self
    have hnew : x ∉ sites := fun hx => lt_irrefl _ (hlast x hx)
    rw [List.map_append, List.map_singleton, distinct_append, any_distinct]
    split
    · rename_i hseen
      refine ⟨firsts, hspecs, hsub.trans (List.sublist_append_left _ _), fun z hz => ?_⟩
      obtain hz | hz := List.mem_append.1 hz
      · rw [leads_append_of_mem hlast hz, hfirsts z hz]
      · rw [List.mem_singleton.1 hz, leads_append_last hlast, hseen]
        exact iff_of_false (fun hx => hnew (hsub.subset hx)) (by decide)
    · rename_i hunseen
      refine ⟨firsts ++ [x], by rw [List.map_append, hspecs, List.map_singleton],
        hsub.append (.refl _), fun z hz => ?_⟩
      obtain hz | hz := List.mem_append.1 hz
      · have hzx : z ∉ [x] := fun h => hnew (List.mem_singleton.1 h ▸ hz)
        rw [leads_append_of_mem hlast hz, ← hfirsts z hz, List.mem_append, or_iff_left hzx]
      · rw [List.mem_singleton.1 hz, leads_append_last hlast]
        exact iff_of_true (List.mem_append_right _ List.mem_cons_self)
          (Bool.not_eq_true _ ▸ hunseen)

-- What is left of specs in order are the first ones, in order.
theorem InOrder.distinct {At : List Nat → Spec Float → Prop} (h : InOrder At specs) :
    InOrder (First At) (Spec.distinct specs) := by
  obtain ⟨sites, rfl, hsorted, hmem⟩ := h
  obtain ⟨firsts, hspecs, hsub, hfirsts⟩ := exists_leading hsorted
  refine ⟨firsts, hspecs, hsorted.sublist hsub, fun path s => ?_⟩
  constructor
  · intro hx
    have hleads := (hfirsts _ (hsub.subset hx)).1 hx
    refine ⟨(hmem path s).1 (hsub.subset hx), fun path' s' hlt hat => ?_⟩
    exact hleads _ ((hmem path' s').2 hat) hlt
  · rintro ⟨hat, hfirst⟩
    refine (hfirsts _ ((hmem path s).2 hat)).2 fun y hy hlt => ?_
    exact hfirst y.1 y.2 hlt ((hmem y.1 y.2).1 hy)

end Distinct

end Indicator.Spec

open Spec

theorem Operand.specs_inOrder (o : Operand α) : InOrder o.ReadsAt o.specs := by
  cases o with
  | price f => exact .nil fun path s h => (nomatch h)
  | constant x => exact .nil fun path s h => (nomatch h)
  | reading s f =>
    refine ⟨[([], s)], rfl, List.pairwise_singleton _ _, fun path t => ?_⟩
    rw [List.mem_singleton]
    constructor
    · intro h
      cases h
      exact .reading s f
    · intro h
      cases h
      rfl

namespace Rule

theorem specsOfList_eq_flatMap (rs : List (Rule α)) : specsOfList rs = rs.flatMap specs := by
  induction rs with
  | nil => rfl
  | cons r rs ih => rw [specsOfList, List.flatMap_cons, ih]

mutual

-- The specs of a rule are those that are read somewhere in it, from left to right.
theorem specs_inOrder (r : Rule α) : InOrder r.ReadsAt r.specs := by
  cases r with
  | compare c left right =>
    have hoperands : ∀ o ∈ [left, right], InOrder o.ReadsAt o.specs := fun o _ => o.specs_inOrder
    have hparts := InOrder.parts hoperands
    rw [List.flatMap_cons, List.flatMap_singleton] at hparts
    refine hparts.congr fun path s => ?_
    constructor
    · rintro ⟨i, rest, o, rfl, ho, hat⟩
      match i with
      | 0 =>
        cases ho
        exact .left hat
      | 1 =>
        cases ho
        exact .right hat
      | i + 2 => cases ho
    · intro h
      cases h with
      | left h => exact ⟨0, _, _, rfl, rfl, h⟩
      | right h => exact ⟨1, _, _, rfl, rfl, h⟩
  | between o lower upper =>
    refine o.specs_inOrder.only.congr fun path s => ?_
    exact ⟨fun ⟨_, hpath, h⟩ => hpath ▸ .between h, fun (.between h) => ⟨_, rfl, h⟩⟩
  | all rs =>
    rw [specs, specsOfList_eq_flatMap]
    refine (InOrder.parts (specsOfList_inOrder rs)).congr fun path s => ?_
    exact ⟨fun ⟨_, _, _, hpath, hr, h⟩ => hpath ▸ .all hr h,
      fun (.all hr h) => ⟨_, _, _, rfl, hr, h⟩⟩
  | any rs =>
    rw [specs, specsOfList_eq_flatMap]
    refine (InOrder.parts (specsOfList_inOrder rs)).congr fun path s => ?_
    exact ⟨fun ⟨_, _, _, hpath, hr, h⟩ => hpath ▸ .any hr h,
      fun (.any hr h) => ⟨_, _, _, rfl, hr, h⟩⟩
  | not r =>
    refine (specs_inOrder r).only.congr fun path s => ?_
    exact ⟨fun ⟨_, hpath, h⟩ => hpath ▸ .not h, fun (.not h) => ⟨_, rfl, h⟩⟩
  | consecutive r n =>
    refine (specs_inOrder r).only.congr fun path s => ?_
    exact ⟨fun ⟨_, hpath, h⟩ => hpath ▸ .consecutive h, fun (.consecutive h) => ⟨_, rfl, h⟩⟩
  | anyOf r n =>
    refine (specs_inOrder r).only.congr fun path s => ?_
    exact ⟨fun ⟨_, hpath, h⟩ => hpath ▸ .anyOf h, fun (.anyOf h) => ⟨_, rfl, h⟩⟩

theorem specsOfList_inOrder (rs : List (Rule α)) : ∀ r ∈ rs, InOrder r.ReadsAt r.specs := by
  cases rs with
  | nil => simp
  | cons r rs => exact List.forall_mem_cons.2 ⟨specs_inOrder r, specsOfList_inOrder rs⟩

end

end Rule

theorem Operand.valid_of_mem_specs [Amount α] (o : Operand α) (ho : o.Valid)
    {t : Spec α} (ht : t ∈ o.specs) : t.Valid := by
  cases o with
  | price f => cases ht
  | constant x => cases ht
  | reading s f =>
    rw [List.mem_singleton.1 ht]
    exact ho.1

namespace Rule

mutual

-- The specs of a valid rule are valid.
theorem valid_of_mem_specs [Amount α] (r : Rule α) (hr : r.Valid) {t : Spec α}
    (ht : t ∈ r.specs) : t.Valid := by
  cases r with
  | compare c left right =>
    obtain ht | ht := List.mem_append.1 ht
    · exact left.valid_of_mem_specs hr.1 ht
    · exact right.valid_of_mem_specs hr.2 ht
  | between o lower upper => exact o.valid_of_mem_specs hr.1 ht
  | all rs => exact valid_of_mem_specsOfList rs hr.2 ht
  | any rs => exact valid_of_mem_specsOfList rs hr.2 ht
  | not r => exact valid_of_mem_specs r hr ht
  | consecutive r n => exact valid_of_mem_specs r hr.1 ht
  | anyOf r n => exact valid_of_mem_specs r hr.1 ht

theorem valid_of_mem_specsOfList [Amount α] (rs : List (Rule α)) (hrs : AllValid rs)
    {t : Spec α} (ht : t ∈ specsOfList rs) : t.Valid := by
  cases rs with
  | nil => cases ht
  | cons r rs =>
    obtain ht | ht := List.mem_append.1 ht
    · exact valid_of_mem_specs r hrs.1 ht
    · exact valid_of_mem_specsOfList rs hrs.2 ht

end

end Rule

namespace Strategy

theorem flatMap_rules (s : Strategy α) :
    s.rules.flatMap Rule.specs = s.slots.flatMap fun slot => (slot.map Rule.specs).getD [] := by
  obtain ⟨_, _, _, _, entryShort, exitShort, _⟩ := s
  cases entryShort <;> cases exitShort <;> simp [rules, slots]

theorem specs_inOrder (s : Strategy α) : InOrder s.ReadsAt (s.rules.flatMap Rule.specs) := by
  have hslots : ∀ slot ∈ s.slots,
      InOrder (fun path t => ∃ r, slot = some r ∧ r.ReadsAt path t)
        ((slot.map Rule.specs).getD []) := by
    intro slot _
    cases slot with
    | none => exact .nil (by simp)
    | some r => exact r.specs_inOrder.congr fun path t => by simp
  rw [flatMap_rules]
  refine (InOrder.parts hslots).congr fun path t => ?_
  constructor
  · rintro ⟨i, rest, slot, rfl, hslot, r, rfl, hat⟩
    exact ⟨i, rest, r, rfl, hslot, hat⟩
  · rintro ⟨i, rest, r, rfl, hslot, hat⟩
    exact ⟨i, rest, some r, rfl, hslot, r, rfl, hat⟩

-- The indicators of a strategy are the specs that are first read somewhere in it, in that order.
theorem indicators_inOrder (s : Strategy Float) : InOrder (First s.ReadsAt) s.indicators :=
  s.specs_inOrder.distinct

-- Each spec of a strategy, or the same one, is among its indicators.
theorem exists_indicator {s : Strategy Float} (hs : ∀ r ∈ s.rules, r.Valid)
    {t : Spec Float} (ht : t ∈ s.rules.flatMap Rule.specs) :
    ∃ u ∈ s.indicators, t.same u = true := by
  obtain ⟨r, hr, htr⟩ := List.mem_flatMap.1 ht
  have hself : t.same t = true := (r.valid_of_mem_specs (hs r hr) htr).same_self
  have hany : (s.rules.flatMap Rule.specs).any t.same = true := List.any_eq_true.2 ⟨t, ht, hself⟩
  rw [← Spec.any_distinct] at hany
  exact List.any_eq_true.1 hany

end Strategy

end BarReplay
