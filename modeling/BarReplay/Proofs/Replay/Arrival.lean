import Mathlib.Data.List.Nodup
import Mathlib.Order.Bounds.Basic
import BarReplay.Proofs.Replay.NoLookahead

namespace BarReplay

open Indicator

variable {α : Type}

-- Bars that have dates of their own can be put in order in one way only.
theorem sortBars_eq_of_perm {bars others : List (Bar α)} (hdates : (bars.map (·.date)).Nodup)
    (h : others.Perm bars) : sortBars others = sortBars bars := by
  have hperm : (sortBars others).Perm (sortBars bars) :=
    (sortBars_perm others).trans (h.trans (sortBars_perm bars).symm)
  refine hperm.eq_of_pairwise ?_ (sortBars_pairwise others) (sortBars_pairwise bars)
  intro a b ha hb hab hba
  have ha : a ∈ bars := h.subset ((sortBars_perm others).subset ha)
  have hb : b ∈ bars := (sortBars_perm bars).subset hb
  exact List.inj_on_of_nodup_map hdates ha hb (le_antisymm hab hba)

namespace Instrument

-- The index of a day is the largest one at which there is a bar of the day.
theorem indexOf?_isGreatest_iff {i : Instrument α} {day : Date} {k : Nat} :
    i.indexOf? day = some k ↔ IsGreatest {j | ∃ b, i.bars[j]? = some b ∧ b.date = day} k := by
  rw [indexOf?_eq_some_iff]
  constructor
  · rintro ⟨b, hb, hdate, hlater⟩
    refine ⟨⟨b, hb, hdate⟩, ?_⟩
    rintro j ⟨c, hc, hcdate⟩
    by_contra hj
    exact hlater j (Nat.not_le.1 hj) c hc hcdate
  · rintro ⟨⟨b, hb, hdate⟩, hlast⟩
    refine ⟨b, hb, hdate, fun j hj c hc hcdate => ?_⟩
    exact Nat.not_lt.2 (hlast ⟨c, hc, hcdate⟩) hj

theorem indexOf?_eq_none_iff {i : Instrument α} {day : Date} :
    i.indexOf? day = none ↔ ∀ b ∈ i.bars, b.date ≠ day := by
  simp only [indexOf?, Option.map_eq_none_iff, List.findIdx?_eq_none_iff, List.mem_reverse,
    beq_eq_false_iff_ne]

theorem ofBars_perm [Amount α] {bars others : List (Bar α)} (hdates : (bars.map (·.date)).Nodup)
    (h : others.Perm bars) (code exchange : String) (s : Option (Strategy α))
    (specs : List (Spec α)) :
    ofBars code exchange others s specs = ofBars code exchange bars s specs := by
  rw [ofBars, ofBars, sortBars_eq_of_perm hdates h]

end Instrument

-- The same listing with its bars in another order.
structure Listing.Rearranges (l m : Listing α) : Prop where
  code : m.code = l.code
  exchange : m.exchange = l.exchange
  specs : m.specs = l.specs
  dates : (l.bars.map (·.date)).Nodup
  bars : m.bars.Perm l.bars

theorem Listing.Rearranges.instrument_eq [Amount α] {l m : Listing α} (h : l.Rearranges m)
    (s : Strategy α) : m.instrument s = l.instrument s := by
  rw [instrument, instrument, h.code, h.exchange, h.specs]
  exact Instrument.ofBars_perm h.dates h.bars _ _ _ _

theorem Listing.mapM_rearranged [Amount α] {listings others : List (Listing α)}
    (h : List.Forall₂ Listing.Rearranges listings others) (s : Strategy α) :
    others.mapM (instrument s) = listings.mapM (instrument s) := by
  induction h with
  | nil => rfl
  | cons hl _ ih => rw [List.mapM_cons, List.mapM_cons, hl.instrument_eq, ih]

-- A calendar does not ask which instrument comes first.
theorem calendar_perm {instruments others : List (Instrument α)} (h : others.Perm instruments) :
    calendar others = calendar instruments := by
  refine increasing_ext (calendar_pairwise _) (calendar_pairwise _) fun d => ?_
  simp only [mem_calendar, h.mem_iff]

theorem Engine.runListed_perm [Amount α] {code exchange : String}
    {listed others : List (String × String × Bar α)} (hcode : code ≠ "") (hexchange : exchange ≠ "")
    (hdates : (listed.map (·.2.2.date)).Nodup) (h : others.Perm listed) (settings : Settings α)
    (s : Strategy α) :
    runListed settings s code exchange others = runListed settings s code exchange listed := by
  have hbars : ((listed.map (·.2.2)).map (·.date)).Nodup := by rwa [List.map_map]
  have hcode : code.isEmpty = false := by simpa using hcode
  have hexchange : exchange.isEmpty = false := by simpa using hexchange
  simp only [runListed, hcode, hexchange, Bool.false_eq_true, if_false]
  rw [Instrument.ofBars_perm hbars (h.map (·.2.2))]

-- Bars with dates of their own make the same instrument in whatever order they arrive, and so
-- the same run. In any case the bars of an instrument are by date, and those of one date as they
-- arrived; a day has the index of its last bar; and a calendar has every day with a bar once, in
-- order, whichever instrument comes first.
theorem order_of_arrival_is_free [Amount α] :
    (∀ code exchange (bars others : List (Bar α)) s specs,
      (bars.map (·.date)).Nodup → others.Perm bars →
        Instrument.ofBars code exchange others s specs =
          Instrument.ofBars code exchange bars s specs) ∧
    (∀ settings s days (listings others : List (Listing α)),
      List.Forall₂ Listing.Rearranges listings others →
        (others.mapM (Listing.instrument s)).map (Engine.run settings s · days) =
          (listings.mapM (Listing.instrument s)).map (Engine.run settings s · days)) ∧
    (∀ settings s code exchange (listed others : List (String × String × Bar α)),
      code ≠ "" → exchange ≠ "" → (listed.map (·.2.2.date)).Nodup → others.Perm listed →
        Engine.runListed settings s code exchange others =
          Engine.runListed settings s code exchange listed) ∧
    (∀ code exchange (bars : List (Bar α)) s specs i,
      Instrument.ofBars code exchange bars s specs = .ok i →
        i.bars.Perm bars ∧ (i.bars.Pairwise fun a b => a.date ≤ b.date) ∧
        ∀ d, i.bars.filter (·.date = d) = bars.filter (·.date = d)) ∧
    (∀ (i : Instrument α) day,
      (∀ k, i.indexOf? day = some k ↔
        IsGreatest {j | ∃ b, i.bars[j]? = some b ∧ b.date = day} k) ∧
      (i.indexOf? day = none ↔ ∀ b ∈ i.bars, b.date ≠ day)) ∧
    ∀ instruments : List (Instrument α),
      (calendar instruments).Pairwise (· < ·) ∧
      (∀ d, d ∈ calendar instruments ↔ ∃ i ∈ instruments, ∃ b ∈ i.bars, b.date = d) ∧
      ∀ others, others.Perm instruments → calendar others = calendar instruments := by
  refine ⟨fun code exchange bars others s specs hdates h => ?_,
    fun settings s days listings others h => ?_,
    fun settings s code exchange listed others hcode hexchange hdates h => ?_,
    fun code exchange bars s specs i h => ?_, fun i day => ?_, fun instruments => ?_⟩
  · exact Instrument.ofBars_perm hdates h code exchange s specs
  · rw [Listing.mapM_rearranged h]
  · exact Engine.runListed_perm hcode hexchange hdates h settings s
  · obtain ⟨table, -, h⟩ := except_bind_eq_ok.1 h
    cases h
    exact ⟨sortBars_perm bars, sortBars_pairwise bars, sortBars_ties bars⟩
  · exact ⟨fun _ => Instrument.indexOf?_isGreatest_iff, Instrument.indexOf?_eq_none_iff⟩
  · exact ⟨calendar_pairwise instruments, fun _ => mem_calendar, fun _ h => calendar_perm h⟩

-- Five bars that arrive with the last one first.
def fallingBackReversed : Listing Float :=
  { Engine.fallingBack with bars := Engine.fallingBack.bars.reverse }

theorem fallingBack_rearranges : Engine.fallingBack.Rearranges fallingBackReversed where
  code := rfl
  exchange := rfl
  specs := rfl
  dates := by decide
  bars := List.reverse_perm _

theorem order_of_arrival_is_free_fallingBack :
    (Engine.fallingBack.bars.map (·.date)).Nodup ∧
      fallingBackReversed.bars.map (·.close) = [11.0, 9.0, 12.0, 11.0, 10.0] ∧
      Instrument.ofBars "AAA" "X" fallingBackReversed.bars (some Engine.aboveAverage) [] =
        .ok ⟨"AAA", "X", Engine.fallingBack.bars, Engine.fallingBackTable⟩ ∧
      (∃ r, ([fallingBackReversed].mapM (Listing.instrument Engine.aboveAverage)).map
          (Engine.run .standard Engine.aboveAverage · none) = .ok (.ok r) ∧
        r.portfolio.trades.length = 1) ∧
      Engine.runListed .standard Engine.aboveAverage "AAA" "X"
          (fallingBackReversed.bars.map fun b => ("BBB", "Y", b)) =
        Engine.runListed .standard Engine.aboveAverage "AAA" "X"
          (Engine.fallingBack.bars.map fun b => ("BBB", "Y", b)) := by
  obtain ⟨hbuilt, hrun, hlisted, -⟩ := order_of_arrival_is_free (α := Float)
  have hdates := fallingBack_rearranges.dates
  have hbars := fallingBack_rearranges.bars
  refine ⟨hdates, by decide, ?_, ?_, ?_⟩
  · rw [hbuilt "AAA" "X" _ _ _ [] hdates hbars]
    exact Engine.fallingBack_instrument
  · obtain ⟨r, hr, htrades⟩ := Engine.fallingBack_run
    refine ⟨r, ?_, htrades⟩
    rw [hrun .standard _ none _ _ (.cons fallingBack_rearranges .nil), List.mapM_cons,
      Engine.fallingBack_instrument]
    exact congrArg Except.ok hr
  · exact hlisted .standard _ "AAA" "X" _ _ (by decide) (by decide) (by decide)
      (hbars.map fun b => ("BBB", "Y", b))

end BarReplay
