import BarReplay.Proofs.Replay.Calendar
import BarReplay.Proofs.Replay.Days
import BarReplay.Proofs.Rule.Causal

namespace BarReplay

open Indicator

variable {α : Type}

namespace Instrument

-- Bars by date, as they are after an instrument has been built.
def Sorted (i : Instrument α) : Prop :=
  i.bars.Pairwise fun a b => a.date ≤ b.date

-- An instrument as it is known at the close of a day.
def upTo (d : Date) (i : Instrument α) : Instrument α :=
  { i with chart := i.chart.cut (i.bars.countP (·.date ≤ d)) }

theorem bars_upTo {i : Instrument α} (hs : i.Sorted) (d : Date) :
    (i.upTo d).bars = i.bars.filter (·.date ≤ d) :=
  (take_countP_eq_filter hs d).1

theorem lt_countP_of_date_le {i : Instrument α} (hs : i.Sorted) {d : Date} {k : Nat} {b : Bar α}
    (hb : i.bars[k]? = some b) (hd : b.date ≤ d) : k < i.bars.countP (·.date ≤ d) := by
  by_contra hk
  have hlater : b ∈ i.bars.drop (i.bars.countP (·.date ≤ d)) := by
    refine List.mem_of_getElem? (i := k - i.bars.countP (·.date ≤ d)) ?_
    rw [List.getElem?_drop, Nat.add_sub_cancel' (Nat.not_lt.1 hk), hb]
  exact absurd hd (not_le.2 ((take_countP_eq_filter hs d).2 b hlater))

-- Up to the day, a day has the same index.
theorem indexOf?_upTo {i : Instrument α} (hs : i.Sorted) {d day : Date} (hday : day ≤ d) :
    (i.upTo d).indexOf? day = i.indexOf? day := by
  refine Option.ext fun k => ?_
  rw [indexOf?_eq_some_iff, indexOf?_eq_some_iff]
  have htake {j : Nat} (hj : j < i.bars.countP (·.date ≤ d)) :
      (i.upTo d).bars[j]? = i.bars[j]? := List.getElem?_take_of_lt hj
  have hcut {j : Nat} {c : Bar α} (hc : (i.upTo d).bars[j]? = some c) :
      j < i.bars.countP (·.date ≤ d) := by
    have h := (List.getElem?_eq_some_iff.1 hc).1
    exact Nat.lt_of_lt_of_le h (List.length_take_le _ _)
  constructor
  · rintro ⟨b, hb, hdate, hlater⟩
    refine ⟨b, htake (hcut hb) ▸ hb, hdate, fun j hj c hc hcd => ?_⟩
    have hjn := lt_countP_of_date_le hs hc (hcd ▸ hday)
    exact hlater j hj c (htake hjn ▸ hc) hcd
  · rintro ⟨b, hb, hdate, hlater⟩
    have hk := lt_countP_of_date_le hs hb (hdate ▸ hday)
    refine ⟨b, (htake hk).trans hb, hdate, fun j hj c hc => ?_⟩
    exact hlater j hj c (htake (hcut hc) ▸ hc)

end Instrument

namespace Engine

variable [Amount α]

open Portfolio Action

omit [Amount α] in
theorem mem_today {instruments : List (Instrument α)} {day : Date} {x : Instrument α × Nat × α}
    (h : x ∈ today instruments day) :
    x.1 ∈ instruments ∧ ∃ b, x.1.bars[x.2.1]? = some b ∧ b.date = day ∧ b.close = x.2.2 := by
  obtain ⟨i, hi, h⟩ := List.mem_filterMap.1 h
  obtain ⟨k, hk, h⟩ := Option.bind_eq_some_iff.1 h
  obtain ⟨b, hb, h⟩ := Option.bind_eq_some_iff.1 h
  cases h
  obtain ⟨c, hc, hdate, -⟩ := Instrument.indexOf?_eq_some_iff.1 hk
  exact ⟨hi, b, hb, Option.some.inj (hc.symm.trans hb) ▸ hdate, rfl⟩

-- Up to the day of the cut, the same instruments trade at the same closes.
omit [Amount α] in
theorem today_upTo {instruments : List (Instrument α)} (hs : ∀ i ∈ instruments, i.Sorted)
    {d day : Date} (hday : day ≤ d) :
    today (instruments.map (·.upTo d)) day =
      (today instruments day).map fun x => (x.1.upTo d, x.2) := by
  simp only [today, List.filterMap_map, List.map_filterMap]
  refine List.filterMap_congr fun i hi => ?_
  simp only [Function.comp_apply, Instrument.indexOf?_upTo (hs i hi) hday]
  cases hk : i.indexOf? day with
  | none => rfl
  | some k =>
    obtain ⟨b, hb, hdate, -⟩ := Instrument.indexOf?_eq_some_iff.1 hk
    have hcut : (i.upTo d).bars[k]? = some b := by
      rw [← hb]
      exact List.getElem?_take_of_lt (Instrument.lt_countP_of_date_le (hs i hi) hb (hdate ▸ hday))
    simp [hb, hcut]

-- A visit looks at nothing behind the cut.
theorem visit_upTo (settings : Settings α) (s : Strategy α) {i : Instrument α} (hs : i.Sorted)
    {d day : Date} (hday : day ≤ d) {k : Nat} {b : Bar α} (hb : i.bars[k]? = some b)
    (hdate : b.date = day) (close : α) :
    visit settings s day (i.upTo d) k close = visit settings s day i k close := by
  have hk : (k : Int) < (i.bars.countP (·.date ≤ d) : Nat) :=
    Int.ofNat_lt.2 (Instrument.lt_countP_of_date_le hs hb (hdate ▸ hday))
  have hholds (r : Rule α) : r.holds (i.upTo d).chart k = r.holds i.chart k :=
    Rule.holds_cut i.chart _ r k hk
  have hexit (pos : Position α) :
      wantsExit s pos (i.upTo d).chart k = wantsExit s pos i.chart k := by
    simp only [wantsExit, hholds]
  have hentry (allow : Bool) :
      entrySide? s allow (i.upTo d).chart k = entrySide? s allow i.chart k := by
    simp only [entrySide?, hholds]
  simp only [visit, hexit, hentry]
  rfl

theorem forIn_congr {m : Type → Type} [Monad m] {β γ : Type} {xs : List β} {init : γ}
    {f g : β → γ → m (ForInStep γ)} (h : ∀ x ∈ xs, ∀ c, f x c = g x c) :
    forIn xs init f = forIn xs init g := by
  induction xs generalizing init with
  | nil => rfl
  | cons x xs ih =>
    rw [List.forIn_cons, List.forIn_cons, h x (by simp)]
    congr
    funext r
    cases r with
    | done c => rfl
    | yield c => exact ih fun y hy => h y (List.mem_cons_of_mem _ hy)

-- A day goes the same way for instruments that end with it as for instruments that go on.
theorem replayDay_upTo (settings : Settings α) (s : Strategy α) {instruments : List (Instrument α)}
    (hs : ∀ i ∈ instruments, i.Sorted) {d day : Date} (hday : day ≤ d) :
    replayDay settings s (instruments.map (·.upTo d)) day =
      replayDay settings s instruments day := by
  have hprices : prices (today (instruments.map (·.upTo d)) day) =
      prices (today instruments day) := by
    simp only [today_upTo hs hday, prices, List.map_map]
    rfl
  unfold replayDay
  simp only [hprices]
  simp only [today_upTo hs hday, List.forIn_map]
  congr
  funext _
  congr 1
  refine forIn_congr fun x hx _ => ?_
  obtain ⟨hi, b, hb, hdate, -⟩ := mem_today hx
  simp only [visit_upTo settings s (hs _ hi) hday hb hdate]

theorem replay_upTo (settings : Settings α) (s : Strategy α) {instruments : List (Instrument α)}
    (hs : ∀ i ∈ instruments, i.Sorted) {d : Date} {days : List Date} (hdays : ∀ e ∈ days, e ≤ d) :
    replay settings s (instruments.map (·.upTo d)) days = replay settings s instruments days := by
  unfold replay
  congr 1
  refine forIn_congr fun e he _ => ?_
  rw [replayDay_upTo settings s hs (hdays e he)]

end Engine

end BarReplay
