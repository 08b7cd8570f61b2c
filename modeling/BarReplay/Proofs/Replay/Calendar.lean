import BarReplay.Proofs.Market.Sorting
import BarReplay.Replay.Instrument

namespace BarReplay

-- Increasing lists with the same members are the same.
theorem increasing_ext {xs ys : List Date} (hxs : xs.Pairwise (· < ·)) (hys : ys.Pairwise (· < ·))
    (h : ∀ d, d ∈ xs ↔ d ∈ ys) : xs = ys := by
  have hperm : xs.Perm ys :=
    (List.perm_ext_iff_of_nodup (hxs.imp ne_of_lt) (hys.imp ne_of_lt)).2 h
  exact hperm.eq_of_pairwise (fun a b _ _ hab hba => absurd hab (lt_asymm hba)) hxs hys

theorem mem_withoutRepeats {d : Date} (ds : List Date) : d ∈ withoutRepeats ds ↔ d ∈ ds := by
  fun_induction withoutRepeats ds with
  | case1 a ds ih => simpa using ih
  | case2 a b ds hab ih => rw [List.mem_cons, ih, List.mem_cons (b := a)]
  | case3 ds => rfl

theorem withoutRepeats_pairwise {ds : List Date} (h : ds.Pairwise (· ≤ ·)) :
    (withoutRepeats ds).Pairwise (· < ·) := by
  fun_induction withoutRepeats ds with
  | case1 a ds ih => exact ih h.of_cons
  | case2 a b ds hab ih =>
    obtain ⟨ha, hds⟩ := List.pairwise_cons.1 h
    refine List.pairwise_cons.2 ⟨fun d hd => ?_, ih hds⟩
    have hd := (mem_withoutRepeats _).1 hd
    have hb : a < b := lt_of_le_of_ne (ha b (by simp)) hab
    cases List.mem_cons.1 hd with
    | inl hdb => exact hdb ▸ hb
    | inr hd => exact lt_of_lt_of_le hb ((List.pairwise_cons.1 hds).1 d hd)
  | case3 ds hshort =>
    cases ds with
    | nil => exact List.Pairwise.nil
    | cons a ds =>
      cases ds with
      | nil => exact List.pairwise_singleton _ _
      | cons b ds => exact absurd rfl (hshort a b ds)

theorem mem_sortDates {d : Date} (ds : List Date) : d ∈ sortDates ds ↔ d ∈ ds := by
  rw [sortDates, mem_withoutRepeats, List.mem_mergeSort]

theorem sortDates_pairwise (ds : List Date) : (sortDates ds).Pairwise (· < ·) := by
  refine withoutRepeats_pairwise ((List.pairwise_mergeSort ?_ ?_ ds).imp of_decide_eq_true)
  · intro a b c hab hbc
    exact decide_eq_true (le_trans (of_decide_eq_true hab) (of_decide_eq_true hbc))
  · intro a b
    simpa only [Bool.or_eq_true, decide_eq_true_eq] using le_total a b

theorem mem_calendar {α : Type} {instruments : List (Instrument α)} {d : Date} :
    d ∈ calendar instruments ↔ ∃ i ∈ instruments, ∃ b ∈ i.bars, b.date = d := by
  simp only [calendar, mem_sortDates, List.mem_flatMap, List.mem_map]

theorem calendar_pairwise {α : Type} (instruments : List (Instrument α)) :
    (calendar instruments).Pairwise (· < ·) :=
  sortDates_pairwise _

-- In an increasing list, the days up to a day come before all others.
theorem increasing_split {ds : List Date} (h : ds.Pairwise (· < ·)) (d : Date) :
    ds = ds.filter (· ≤ d) ++ ds.filter (d < ·) := by
  induction ds with
  | nil => rfl
  | cons e ds ih =>
    obtain ⟨he, hds⟩ := List.pairwise_cons.1 h
    by_cases hd : e ≤ d
    · simpa [hd] using ih hds
    · have hlate : ∀ c ∈ e :: ds, d < c := by
        intro c hc
        cases List.mem_cons.1 hc with
        | inl hce => exact hce ▸ not_le.1 hd
        | inr hc => exact lt_trans (not_le.1 hd) (he c hc)
      rw [List.filter_eq_nil_iff.2 fun c hc => by simpa using hlate c hc,
        List.filter_eq_self.2 fun c hc => by simpa using hlate c hc, List.nil_append]

namespace Instrument

variable {α : Type}

-- The index of a day is that of its last bar.
theorem indexOf?_eq_some_iff {i : Instrument α} {day : Date} {k : Nat} :
    i.indexOf? day = some k ↔
      ∃ b, i.bars[k]? = some b ∧ b.date = day ∧
        ∀ j > k, ∀ c, i.bars[j]? = some c → c.date ≠ day := by
  simp only [indexOf?, Option.map_eq_some_iff, List.findIdx?_eq_some_iff_getElem,
    List.length_reverse, List.getElem_reverse, beq_iff_eq]
  constructor
  · rintro ⟨m, ⟨hm, hdate, hlater⟩, rfl⟩
    refine ⟨_, List.getElem?_eq_getElem (by omega), hdate, fun j hj c hc => ?_⟩
    obtain ⟨hjlen, rfl⟩ := List.getElem?_eq_some_iff.1 hc
    have h := hlater (i.bars.length - 1 - j) (by omega)
    simpa only [show i.bars.length - 1 - (i.bars.length - 1 - j) = j by omega] using h
  · rintro ⟨b, hb, hdate, hlater⟩
    obtain ⟨hk, rfl⟩ := List.getElem?_eq_some_iff.1 hb
    refine ⟨i.bars.length - 1 - k, ⟨by omega, ?_, fun j hj => ?_⟩, by omega⟩
    · simpa only [show i.bars.length - 1 - (i.bars.length - 1 - k) = k by omega] using hdate
    · exact hlater _ (by omega) _ (List.getElem?_eq_getElem (by omega))

end Instrument

end BarReplay
