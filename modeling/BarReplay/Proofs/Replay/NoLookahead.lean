import BarReplay.Proofs.Replay.Truncation

namespace BarReplay

open Indicator Portfolio Action

variable {α : Type} [Amount α]

-- What an instrument is built from.
structure Listing (α : Type) where
  code : String
  exchange : String
  bars : List (Bar α)
  -- series that are wanted besides those of the strategy
  specs : List (Spec α)

namespace Listing

def instrument (s : Strategy α) (l : Listing α) : Except Fault (Instrument α) :=
  Instrument.ofBars l.code l.exchange l.bars (some s) l.specs

omit [Amount α] in
-- The listing with the bars up to a day only.
def upTo (d : Date) (l : Listing α) : Listing α :=
  { l with bars := l.bars.filter (·.date ≤ d) }

theorem instrument_sorted {s : Strategy α} {l : Listing α} {i : Instrument α}
    (h : l.instrument s = .ok i) : i.Sorted := by
  obtain ⟨t, -, h⟩ := except_bind_eq_ok.1 h
  cases h
  exact sortBars_pairwise l.bars

-- Series computed over the bars up to a day are those over all bars, cut off at the day.
theorem instrument_upTo {s : Strategy α} {l : Listing α} {i : Instrument α}
    (h : l.instrument s = .ok i) (d : Date) : (l.upTo d).instrument s = .ok (i.upTo d) := by
  obtain ⟨t, htable, h⟩ := except_bind_eq_ok.1 h
  cases h
  have hcut : sortBars (l.upTo d).bars =
      (sortBars l.bars).take ((sortBars l.bars).countP (·.date ≤ d)) := by
    rw [(take_countP_eq_filter (sortBars_pairwise l.bars) d).1]
    exact sortBars_filter _ l.bars
  have hlength : ((sortBars l.bars).take ((sortBars l.bars).countP (·.date ≤ d))).length =
      (sortBars l.bars).countP (·.date ≤ d) := by
    rw [List.length_take, Nat.min_eq_left List.countP_le_length]
  rw [← List.take_append_drop ((sortBars l.bars).countP (·.date ≤ d)) (sortBars l.bars)] at htable
  have htable := Table.ofSpecs_append htable
  rw [hlength, ← hcut] at htable
  refine except_bind_eq_ok.2 ⟨_, htable, ?_⟩
  rw [hcut]
  rfl

theorem mapM_instrument {s : Strategy α} {listings : List (Listing α)}
    {instruments : List (Instrument α)} (h : listings.mapM (instrument s) = .ok instruments)
    (d : Date) :
    (∀ i ∈ instruments, i.Sorted) ∧
      (listings.map (upTo d)).mapM (instrument s) = .ok (instruments.map (Instrument.upTo d)) := by
  induction listings generalizing instruments with
  | nil => cases h; exact ⟨by simp, rfl⟩
  | cons l listings ih =>
    rw [List.mapM_cons] at h
    obtain ⟨i, hi, h⟩ := except_bind_eq_ok.1 h
    obtain ⟨rest, hrest, h⟩ := except_bind_eq_ok.1 h
    cases h
    obtain ⟨hsorted, hcut⟩ := ih hrest
    refine ⟨List.forall_mem_cons.2 ⟨instrument_sorted hi, hsorted⟩, ?_⟩
    rw [List.map_cons, List.mapM_cons]
    exact except_bind_eq_ok.2 ⟨_, instrument_upTo hi d, except_bind_eq_ok.2 ⟨_, hcut, rfl⟩⟩

end Listing

-- A calendar of instruments that end on a day is the calendar up to that day.
omit [Amount α] in
theorem calendar_upTo {instruments : List (Instrument α)} (hs : ∀ i ∈ instruments, i.Sorted)
    (d : Date) :
    calendar (instruments.map (·.upTo d)) = (calendar instruments).filter (· ≤ d) := by
  refine increasing_ext (calendar_pairwise _) ((calendar_pairwise _).filter _) fun e => ?_
  simp only [List.mem_filter, mem_calendar, List.mem_map, decide_eq_true_eq]
  constructor
  · rintro ⟨_, ⟨i, hi, rfl⟩, b, hb, rfl⟩
    rw [Instrument.bars_upTo (hs i hi), List.mem_filter] at hb
    exact ⟨⟨i, hi, b, hb.1, rfl⟩, by simpa using hb.2⟩
  · rintro ⟨⟨i, hi, b, hb, rfl⟩, hd⟩
    refine ⟨_, ⟨i, hi, rfl⟩, b, ?_, rfl⟩
    rw [Instrument.bars_upTo (hs i hi)]
    exact List.mem_filter.2 ⟨hb, by simpa using hd⟩

namespace Engine

variable {settings : Settings α} {s : Strategy α} {instruments : List (Instrument α)} {d : Date}

omit [Amount α] in
-- Of what two parts of a replay write down one after the other, a date between them finds that
-- of the first part.
theorem Records.filter {p q : Portfolio α} (hp : Records (· ≤ d) (.new settings.initialCapital) p)
    (hq : Records (d < ·) p q) :
    p.curve = q.curve.filter (·.date ≤ d) ∧ p.trades = q.trades.filter (·.exitDate ≤ d) := by
  obtain ⟨⟨ts, hts, hdts⟩, ⟨xs, hxs, hdxs⟩⟩ := hp
  obtain ⟨⟨us, hus, hdus⟩, ⟨ys, hys, hdys⟩⟩ := hq
  have hp : p.trades = ts ∧ p.curve = xs := ⟨hts, hxs⟩
  rw [hus, hys, hp.1, hp.2, List.filter_append, List.filter_append,
    List.filter_eq_self.2 fun x hx => decide_eq_true (hdxs x hx),
    List.filter_eq_self.2 fun t ht => decide_eq_true (hdts t ht),
    List.filter_eq_nil_iff.2 fun y hy => by simpa using hdys y hy,
    List.filter_eq_nil_iff.2 fun u hu => by simpa using hdus u hu]
  simp

-- A run whose calendar stops at a day leaves the portfolio that the whole run had then.
theorem run_upTo {r : Result α} (hrun : run settings s instruments none = .ok r) (d : Date) :
    ∃ r', run settings s instruments (some ((calendar instruments).filter (· ≤ d))) = .ok r' ∧
      r'.portfolio.curve = r.portfolio.curve.filter (·.date ≤ d) ∧
      r'.portfolio.trades = r.portfolio.trades.filter (·.exitDate ≤ d) ∧
      r'.portfolio = asOf (.new settings.initialCapital)
        (history settings s instruments (.new settings.initialCapital) (calendar instruments)) d := by
  obtain ⟨hcodes, q, hq, rfl⟩ := (run_eq_ok_iff _ _ _).1 hrun
  have hsplit := increasing_split (calendar_pairwise instruments) d
  have hearly : ∀ e ∈ (calendar instruments).filter (· ≤ d), e ≤ d := by simp
  have hlate : ∀ e ∈ (calendar instruments).filter (d < ·), d < e := by simp
  rw [Option.getD_none, hsplit, replay_append] at hq
  obtain ⟨_, p, hp, hq⟩ := on_bind_eq_ok.1 hq
  have hfirst : Records (· ≤ d) (.new settings.initialCapital) (on (replay settings s instruments _)
    (.new settings.initialCapital)).2 := replay_records hearly _
  have hrest : Records (d < ·) p (on (replay settings s instruments _) p).2 :=
    replay_records hlate p
  rw [hp] at hfirst
  rw [hq] at hrest
  obtain ⟨hcurve, htrades⟩ := Records.filter hfirst hrest
  refine ⟨_, (run_eq_ok_iff _ _ _).2 ⟨hcodes, p, hp, rfl⟩, hcurve, htrades, ?_⟩
  rw [hsplit]
  exact (asOf_history settings s instruments hearly hlate hp).symm

-- No look-ahead: a run over the bars up to a day ends well if the run over all bars does. It has
-- the points and the trades of the whole run up to the day and leaves its portfolio of that day,
-- and so does the run over all bars whose calendar stops at the day.
theorem run_of_bars_upTo {listings : List (Listing α)} {r : Result α}
    (hbuilt : listings.mapM (Listing.instrument s) = .ok instruments)
    (hrun : run settings s instruments none = .ok r) (d : Date) :
    ∃ cut r', (listings.map (Listing.upTo d)).mapM (Listing.instrument s) = .ok cut ∧
      run settings s cut none = .ok r' ∧
      run settings s instruments (some ((calendar instruments).filter (· ≤ d))) = .ok r' ∧
      r'.portfolio.curve = r.portfolio.curve.filter (·.date ≤ d) ∧
      r'.portfolio.trades = r.portfolio.trades.filter (·.exitDate ≤ d) ∧
      r'.portfolio = asOf (.new settings.initialCapital)
        (history settings s instruments (.new settings.initialCapital) (calendar instruments))
        d := by
  obtain ⟨hsorted, hcut⟩ := Listing.mapM_instrument hbuilt d
  obtain ⟨r', hstop, hwritten⟩ := run_upTo hrun d
  refine ⟨_, r', hcut, ?_, hstop, hwritten⟩
  obtain ⟨hcodes, p, hp, rfl⟩ := (run_eq_ok_iff _ _ _).1 hstop
  have hdays : ∀ e ∈ (calendar instruments).filter (· ≤ d), e ≤ d := by simp
  have hsame : (instruments.map (Instrument.upTo d)).map (·.code) = instruments.map (·.code) := by
    rw [List.map_map]
    rfl
  refine (run_eq_ok_iff _ _ _).2 ⟨hsame ▸ hcodes, p, ?_, ?_⟩
  · rw [Option.getD_none, calendar_upTo hsorted, replay_upTo settings s hsorted hdays]
    exact hp
  · rw [hsame]
    cases instruments <;> rfl

def closing (day : Date) (close : Float) : Bar Float :=
  ⟨day, close, close, close, close, 1000.0⟩

-- Five days of June, with a close each.
def fallingBack : Listing Float where
  code := "AAA"
  exchange := "X"
  bars := [closing (june 3 (by decide)) 10.0, closing (june 4 (by decide)) 11.0,
    closing (june 5 (by decide)) 12.0, closing (june 6 (by decide)) 9.0,
    closing (june 7 (by decide)) 11.0]
  specs := []

-- In the market while the close is above the average of the last two.
def aboveAverage : Strategy Float where
  name := "above average"
  description := ""
  entryLong := .compare .above (.price .close) (.reading (.windowed .sma 2) .value)
  exitLong := .compare .below (.price .close) (.reading (.windowed .sma 2) .value)
  entryShort := none
  exitShort := none
  positionSize := 1.0
  stopLossPct := 0.0
  takeProfitPct := 0.0
  maxPositions := 1

def fallingBackTable : Table Float :=
  (Table.ofSpecs fallingBack.bars aboveAverage.indicators).toOption.getD []

theorem fallingBack_instrument :
    fallingBack.instrument aboveAverage = .ok ⟨"AAA", "X", fallingBack.bars, fallingBackTable⟩ := by
  have hsort : sortBars fallingBack.bars = fallingBack.bars :=
    List.mergeSort_of_pairwise (by decide)
  have htable : Table.ofSpecs fallingBack.bars aboveAverage.indicators = .ok fallingBackTable :=
    except_eq_ok_getD (by decide) []
  unfold Listing.instrument Instrument.ofBars
  rw [hsort]
  exact except_bind_eq_ok.2 ⟨_, htable, rfl⟩

theorem fallingBack_run :
    ∃ r, run .standard aboveAverage [⟨"AAA", "X", fallingBack.bars, fallingBackTable⟩] none =
        .ok r ∧ r.portfolio.trades.length = 1 := by
  have hsort : (fallingBack.bars.map (·.date)).mergeSort (fun a b => decide (a ≤ b)) =
      fallingBack.bars.map (·.date) := List.mergeSort_of_pairwise (by decide)
  have hcalendar : calendar [⟨"AAA", "X", fallingBack.bars, fallingBackTable⟩] =
      fallingBack.bars.map (·.date) := (congrArg withoutRepeats hsort).trans (by decide)
  have htrades : (run .standard aboveAverage
      [⟨"AAA", "X", fallingBack.bars, fallingBackTable⟩] none).toOption.map
        (·.portfolio.trades.length) = some 1 := by
    unfold run
    rw [hcalendar]
    decide +kernel
  cases hrun : run .standard aboveAverage
      [⟨"AAA", "X", fallingBack.bars, fallingBackTable⟩] none with
  | error e =>
    rw [hrun] at htrades
    cases htrades
  | ok r =>
    rw [hrun] at htrades
    exact ⟨r, rfl, Option.some.inj htrades⟩

theorem run_of_bars_upTo_fallingBack :
    ∃ instruments r cut r', [fallingBack].mapM (Listing.instrument aboveAverage) = .ok instruments ∧
      run .standard aboveAverage instruments none = .ok r ∧ r.portfolio.trades.length = 1 ∧
      [fallingBack.upTo (june 5 (by decide))].mapM (Listing.instrument aboveAverage) = .ok cut ∧
      run .standard aboveAverage cut none = .ok r' ∧
      r'.portfolio.curve = r.portfolio.curve.filter (·.date ≤ june 5 (by decide)) := by
  obtain ⟨r, hrun, htrades⟩ := fallingBack_run
  have hbuilt : [fallingBack].mapM (Listing.instrument aboveAverage) =
      .ok [⟨"AAA", "X", fallingBack.bars, fallingBackTable⟩] := by
    rw [List.mapM_cons, fallingBack_instrument]
    rfl
  obtain ⟨cut, r', hcut, hrun', -, hcurve, -⟩ := run_of_bars_upTo hbuilt hrun (june 5 (by decide))
  exact ⟨_, r, cut, r', hbuilt, hrun, htrades, hcut, hrun', hcurve⟩

end Engine

end BarReplay
