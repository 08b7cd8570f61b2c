import BarReplay.Market.Basic
import BarReplay.Proofs.Calendar.Dates
import Mathlib.Data.List.Basic

namespace BarReplay

-- A list falls in one way only into a part in front that fails a test and a part behind that
-- passes it.
theorem append_inj_of_test {β : Type} (test : β → Prop) {xs ys xs' ys' : List β}
    (h : xs ++ ys = xs' ++ ys') (hxs : ∀ x ∈ xs, ¬ test x) (hys : ∀ y ∈ ys, test y)
    (hxs' : ∀ x ∈ xs', ¬ test x) (hys' : ∀ y ∈ ys', test y) : xs = xs' ∧ ys = ys' := by
  induction xs generalizing xs' with
  | nil =>
    cases xs' with
    | nil => exact ⟨rfl, h⟩
    | cons x' xs' =>
      have hmem : x' ∈ ys := by simp only [List.nil_append] at h; simp [h]
      exact absurd (hys x' hmem) (hxs' x' (by simp))
  | cons x xs ih =>
    cases xs' with
    | nil =>
      have hmem : x ∈ ys' := by simp only [List.nil_append] at h; simp [← h]
      exact absurd (hys' x hmem) (hxs x (by simp))
    | cons x' xs' =>
      simp only [List.cons_append, List.cons.injEq] at h
      obtain ⟨rfl, h⟩ := h
      obtain ⟨rfl, rfl⟩ := ih h (fun y hy => hxs y (List.mem_cons_of_mem _ hy))
        (fun y hy => hxs' y (List.mem_cons_of_mem _ hy))
      exact ⟨rfl, rfl⟩

section Stable

variable {β : Type} {le : β → β → Bool} (htrans : ∀ a b c, le a b → le b c → le a c)
  (htotal : ∀ a b, (le a b || le b a) = true)

include htrans htotal

-- Sorting is stable, so leaving elements out and sorting can be done in either order.
theorem mergeSort_filter (keep : β → Bool) (xs : List β) :
    (xs.filter keep).mergeSort le = (xs.mergeSort le).filter keep := by
  induction xs with
  | nil => simp
  | cons x xs ih =>
    obtain ⟨front, back, hcons, hsort, hfront⟩ := List.mergeSort_cons htrans htotal x xs
    have hback : ∀ y ∈ back, le x y = true := by
      have hp := List.pairwise_mergeSort htrans htotal (x :: xs)
      rw [hcons, List.pairwise_append] at hp
      exact (List.pairwise_cons.1 hp.2.1).1
    cases hx : keep x with
    | false =>
      rw [List.filter_cons_of_neg (by simp [hx]), ih, hsort, hcons, List.filter_append,
        List.filter_append, List.filter_cons_of_neg (by simp [hx])]
    | true =>
      obtain ⟨front', back', hcons', hsort', hfront'⟩ :=
        List.mergeSort_cons htrans htotal x (xs.filter keep)
      have hback' : ∀ y ∈ back', le x y = true := by
        have hp := List.pairwise_mergeSort htrans htotal (x :: xs.filter keep)
        rw [hcons', List.pairwise_append] at hp
        exact (List.pairwise_cons.1 hp.2.1).1
      rw [hsort', hsort, List.filter_append] at ih
      obtain ⟨rfl, rfl⟩ := append_inj_of_test (fun y => le x y = true) ih
        (fun y hy => by simpa using hfront' y hy) hback'
        (fun y hy => by simpa using hfront y (List.mem_of_mem_filter hy))
        (fun y hy => hback y (List.mem_of_mem_filter hy))
      rw [List.filter_cons_of_pos hx, hcons', hcons, List.filter_append,
        List.filter_cons_of_pos hx]

end Stable

variable {α : Type}

theorem dateLe_trans (a b c : Bar α) (hab : decide (a.date ≤ b.date) = true)
    (hbc : decide (b.date ≤ c.date) = true) : decide (a.date ≤ c.date) = true :=
  decide_eq_true (le_trans (of_decide_eq_true hab) (of_decide_eq_true hbc))

theorem dateLe_total (a b : Bar α) :
    (decide (a.date ≤ b.date) || decide (b.date ≤ a.date)) = true := by
  simpa only [Bool.or_eq_true, decide_eq_true_eq] using le_total a.date b.date

theorem sortBars_pairwise (bars : List (Bar α)) :
    (sortBars bars).Pairwise fun a b => a.date ≤ b.date :=
  (List.pairwise_mergeSort dateLe_trans dateLe_total bars).imp of_decide_eq_true

theorem sortBars_perm (bars : List (Bar α)) : (sortBars bars).Perm bars :=
  List.mergeSort_perm bars _

theorem sortBars_filter (keep : Bar α → Bool) (bars : List (Bar α)) :
    sortBars (bars.filter keep) = (sortBars bars).filter keep :=
  mergeSort_filter dateLe_trans dateLe_total keep bars

-- Bars of one date keep the order in which they came.
theorem sortBars_ties (bars : List (Bar α)) (d : Date) :
    (sortBars bars).filter (·.date = d) = bars.filter (·.date = d) := by
  rw [← sortBars_filter]
  refine List.mergeSort_of_pairwise (List.pairwise_iff_forall_sublist.2 fun {a b} hab => ?_)
  have ha := (List.mem_filter.1 (hab.subset (List.mem_cons_self ..))).2
  have hb := (List.mem_filter.1 (hab.subset (List.mem_cons_of_mem _ List.mem_cons_self))).2
  rw [of_decide_eq_true ha, of_decide_eq_true hb]
  exact decide_eq_true le_rfl

-- In bars by date, those up to a day are the first ones.
theorem take_countP_eq_filter {bars : List (Bar α)}
    (hs : bars.Pairwise fun a b => a.date ≤ b.date) (d : Date) :
    bars.take (bars.countP (·.date ≤ d)) = bars.filter (·.date ≤ d) ∧
      ∀ b ∈ bars.drop (bars.countP (·.date ≤ d)), d < b.date := by
  induction bars with
  | nil => simp
  | cons b bars ih =>
    obtain ⟨hb, hbars⟩ := List.pairwise_cons.1 hs
    by_cases hd : b.date ≤ d
    · simpa [List.countP_cons_of_pos, hd] using ih hbars
    · -- everything from here on is later
      have hlate : ∀ c ∈ b :: bars, d < c.date := by
        intro c hc
        cases List.mem_cons.1 hc with
        | inl hcb => exact hcb ▸ not_le.1 hd
        | inr hc => exact lt_of_lt_of_le (not_le.1 hd) (hb c hc)
      have hnone : (b :: bars).countP (fun c => decide (c.date ≤ d)) = 0 :=
        List.countP_eq_zero.2 fun c hc => by simpa using hlate c hc
      rw [hnone]
      refine ⟨?_, hlate⟩
      rw [List.take_zero, eq_comm, List.filter_eq_nil_iff]
      exact fun c hc => by simpa using hlate c hc

section Ordered

variable {β : Type} {date : β → Date} {xs ys : List β}

theorem mem_iff_of_filter_eq (h : ∀ d, xs.filter (date · == d) = ys.filter (date · == d)) (z : β) :
    z ∈ xs ↔ z ∈ ys := by
  have hz : z ∈ xs.filter (date · == date z) ↔ z ∈ ys.filter (date · == date z) := by
    rw [h (date z)]
  simpa using hz

-- A list in order of dates is known by what it has on each of them.
theorem eq_of_ordered (hxs : xs.Pairwise fun x y => date x ≤ date y)
    (hys : ys.Pairwise fun x y => date x ≤ date y)
    (h : ∀ d, xs.filter (date · == d) = ys.filter (date · == d)) : xs = ys := by
  induction xs generalizing ys with
  | nil =>
    have hempty : ∀ z, z ∉ ys := fun z hz => List.not_mem_nil ((mem_iff_of_filter_eq h z).2 hz)
    exact (List.eq_nil_iff_forall_not_mem.2 hempty).symm
  | cons x xs ih =>
    have hx : x ∈ ys := (mem_iff_of_filter_eq h x).1 List.mem_cons_self
    cases ys with
    | nil => cases hx
    | cons y ys =>
      have hy : y ∈ x :: xs := (mem_iff_of_filter_eq h y).2 List.mem_cons_self
      obtain ⟨hxfirst, hxtail⟩ := List.pairwise_cons.1 hxs
      obtain ⟨hyfirst, hytail⟩ := List.pairwise_cons.1 hys
      -- both lists begin with an element of the earliest date
      have hxy : date x ≤ date y := by
        rcases List.mem_cons.1 hy with heq | hin
        · rw [heq]
        · exact hxfirst y hin
      have hyx : date y ≤ date x := by
        rcases List.mem_cons.1 hx with heq | hin
        · rw [heq]
        · exact hyfirst x hin
      have hdate : date y = date x := le_antisymm hyx hxy
      have hheads := h (date x)
      rw [List.filter_cons_of_pos (by simp), List.filter_cons_of_pos (by simp [hdate])] at hheads
      obtain ⟨rfl, -⟩ := List.cons.inj hheads
      have htails : ∀ d, xs.filter (date · == d) = ys.filter (date · == d) := by
        intro d
        have hd := h d
        by_cases hxd : date x = d
        · rw [List.filter_cons_of_pos (by simp [hxd]),
            List.filter_cons_of_pos (by simp [hxd])] at hd
          exact (List.cons.inj hd).2
        · rwa [List.filter_cons_of_neg (by simp [hxd]),
            List.filter_cons_of_neg (by simp [hxd])] at hd
      rw [ih hxtail hytail htails]

end Ordered

end BarReplay
