import BarReplay.Proofs.Portfolio.Ledger
import BarReplay.Proofs.Replay.Curve

namespace BarReplay.Engine

open Portfolio Action

variable {α : Type} [Amount α] {settings : Settings α} {s : Strategy α}
  {e : Execution α} {instruments : List (Instrument α)} {day : Date} {p q : Portfolio α}

-- A position whose price is the close of its instrument on its entry date, with the slippage
-- of its side.
def Entered (e : Execution α) (instruments : List (Instrument α)) (pos : Position α) : Prop :=
  ∃ i ∈ instruments, i.code = pos.code ∧ ∃ bar, i.barOn? pos.entryDate = some bar ∧
    (0 < pos.quantity ∧ pos.entryPrice = e.buyPrice bar.close ∨
      pos.quantity < 0 ∧ pos.entryPrice = e.sellPrice bar.close)

-- A trade that goes from one day of its instrument to a later one, at the closes of both with
-- the slippage of its side.
def RoundTrip (e : Execution α) (instruments : List (Instrument α)) (t : ClosedTrade α) : Prop :=
  t.entryDate < t.exitDate ∧ ∃ i ∈ instruments, i.code = t.code ∧ ∃ entry exit,
    i.barOn? t.entryDate = some entry ∧ i.barOn? t.exitDate = some exit ∧
    (0 < t.quantity ∧ t.entryPrice = e.buyPrice entry.close ∧
        t.exitPrice = e.sellPrice exit.close ∨
      t.quantity < 0 ∧ t.entryPrice = e.sellPrice entry.close ∧
        t.exitPrice = e.buyPrice exit.close)

-- What is true of positions and trades at any moment of a run.
structure Chronicle (e : Execution α) (instruments : List (Instrument α)) (p : Portfolio α) :
    Prop where
  single : p.Single
  held : ∀ pos ∈ p.positions, Entered e instruments pos
  closed : ∀ t ∈ p.trades, RoundTrip e instruments t
  ordered : p.trades.Pairwise fun t u => t.exitDate ≤ u.exitDate
  apart : p.trades.Pairwise fun t u => t.code = u.code → t.exitDate ≤ u.entryDate
  behind : ∀ t ∈ p.trades, ∀ pos ∈ p.positions, t.code = pos.code → t.exitDate ≤ pos.entryDate

-- How far a run has come: nothing is later than the day, and what is held in the instruments
-- that can still be closed on the day was entered before it.
structure AsOfDay (day : Date) (pending : String → Prop) (p : Portfolio α) : Prop where
  closed : ∀ t ∈ p.trades, t.exitDate ≤ day
  entered : ∀ pos ∈ p.positions, pos.entryDate ≤ day
  pending : ∀ pos ∈ p.positions, pending pos.code → pos.entryDate < day

theorem Chronicle.new (capital : α) : Chronicle e instruments (Portfolio.new capital) where
  single := List.nodup_nil
  held := by simp [Portfolio.new]
  closed := by simp [Portfolio.new]
  ordered := .nil
  apart := .nil
  behind := by simp [Portfolio.new]

omit [Amount α] in
theorem AsOfDay.new (day : Date) (pending : String → Prop) (capital : α) :
    AsOfDay day pending (Portfolio.new capital) where
  closed := by simp [Portfolio.new]
  entered := by simp [Portfolio.new]
  pending := by simp [Portfolio.new]

omit [Amount α] in
theorem AsOfDay.imp {pending pending' : String → Prop} (hp : AsOfDay day pending p)
    (h : ∀ code, pending' code → pending code) : AsOfDay day pending' p where
  closed := hp.closed
  entered := hp.entered
  pending pos hpos hcode := hp.pending pos hpos (h _ hcode)

-- On a later day everything can be closed.
omit [Amount α] in
theorem AsOfDay.later {pending pending' : String → Prop} (hp : AsOfDay day pending p)
    {next : Date} (h : day < next) : AsOfDay next pending' p where
  closed t ht := (hp.closed t ht).trans h.le
  entered pos hpos := (hp.entered pos hpos).trans h.le
  pending pos hpos _ := lt_of_le_of_lt (hp.entered pos hpos) h

theorem entered_of_opens {i : Instrument α} {pos : Position α}
    (h : Opens settings s instruments day i p pos q) :
    Entered settings.execution instruments pos ∧ pos.code = i.code ∧ pos.entryDate = day := by
  cases h with
  | @intro bar side pos cost fee listed quoted room allowed filled =>
    obtain ⟨-, -, quantity, -, -, hq, -, -, -, -, rfl⟩ := order_filled filled
    refine ⟨⟨i, listed, rfl, bar, quoted, ?_⟩, rfl, rfl⟩
    cases side with
    | long => exact .inl ⟨hq, rfl⟩
    | short =>
      have hneg : -quantity < 0 := by omega
      exact .inr ⟨hneg, rfl⟩

-- A position that is closed on a later day makes a round trip in the same instrument.
theorem RoundTrip.of_closing (hcodes : (instruments.map (·.code)).Nodup) {pos : Position α}
    {t : ClosedTrade α} {i : Instrument α} {bar : Bar α} (hpos : Entered e instruments pos)
    (hdate : pos.entryDate < day) (listed : i ∈ instruments) (named : i.code = pos.code)
    (quoted : i.barOn? day = some bar) (ht : Closing e day bar.close pos t) :
    RoundTrip e instruments t := by
  obtain ⟨j, hj, hcode, entry, hentry, hside⟩ := hpos
  obtain rfl : j = i := List.inj_on_of_nodup_map hcodes hj listed (hcode.trans named.symm)
  refine ⟨by rw [ht.entryDate, ht.exitDate]; exact hdate, j, hj, by rw [ht.code, hcode], entry, bar,
    by rw [ht.entryDate]; exact hentry, by rw [ht.exitDate]; exact quoted, ?_⟩
  rw [ht.quantity, ht.entryPrice, ht.exitPrice]
  obtain ⟨hlong, hprice⟩ | ⟨hshort, hprice⟩ := hside
  · have hside : pos.isLong = true := decide_eq_true hlong
    exact .inl ⟨hlong, hprice, by rw [hside]; rfl⟩
  · have hside : pos.isLong = false := decide_eq_false (by omega)
    exact .inr ⟨hshort, hprice, by rw [hside]; rfl⟩

section Steps

variable {pending : String → Prop} {code : String}

-- Closing a position that was entered before the day puts a round trip at the end of the trades.
theorem Chronicle.close (hcodes : (instruments.map (·.code)).Nodup)
    (hp : Chronicle e instruments p) (hday : AsOfDay day pending p) (hcode : pending code)
    (h : Closes e instruments day code p q) : Chronicle e instruments q := by
  cases h with
  | @intro i bar pos trade returned listed named quoted held settled =>
    have hmem : pos ∈ p.positions := List.mem_of_find?_eq_some held
    have hpc : pos.code = code := by simpa using List.find?_some held
    have ht := closing_of_settle settled
    have hdate : pos.entryDate < day := hday.pending pos hmem (hpc ▸ hcode)
    have hrest : ∀ x ∈ (p.without code).positions, x ∈ p.positions ∧ x.code ≠ code := by
      intro x hx
      simpa [without] using hx
    constructor
    case single => exact hp.single.without code
    case held => exact fun x hx => hp.held x (hrest x hx).1
    case closed =>
      intro t hmt
      cases List.mem_append.1 hmt with
      | inl hmt => exact hp.closed t hmt
      | inr hmt =>
        rw [List.mem_singleton.1 hmt]
        exact .of_closing hcodes (hp.held pos hmem) hdate listed (named.trans hpc.symm) quoted ht
    case ordered =>
      refine List.pairwise_append.2 ⟨hp.ordered, List.pairwise_singleton _ _, ?_⟩
      intro t hmt u hu
      rw [List.mem_singleton.1 hu, ht.exitDate]
      exact hday.closed t hmt
    case apart =>
      refine List.pairwise_append.2 ⟨hp.apart, List.pairwise_singleton _ _, ?_⟩
      intro t hmt u hu hsame
      rw [List.mem_singleton.1 hu, ht.code] at hsame
      rw [List.mem_singleton.1 hu, ht.entryDate]
      exact hp.behind t hmt pos hmem hsame
    case behind =>
      intro t hmt x hx hsame
      cases List.mem_append.1 hmt with
      | inl hmt => exact hp.behind t hmt x (hrest x hx).1 hsame
      | inr hmt =>
        rw [List.mem_singleton.1 hmt, ht.code, hpc] at hsame
        exact absurd hsame.symm (hrest x hx).2

theorem AsOfDay.close (hp : AsOfDay day pending p) (h : Closes e instruments day code p q) :
    AsOfDay day pending q := by
  cases h with
  | @intro i bar pos trade returned listed named quoted held settled =>
    have hrest : ∀ x ∈ (p.without code).positions, x ∈ p.positions := fun x hx =>
      List.mem_of_mem_filter hx
    refine ⟨fun t hmt => ?_, fun x hx => hp.entered x (hrest x hx),
      fun x hx => hp.pending x (hrest x hx)⟩
    cases List.mem_append.1 hmt with
    | inl hmt => exact hp.closed t hmt
    | inr hmt => rw [List.mem_singleton.1 hmt, (closing_of_settle settled).exitDate]

-- A position that is opened on the day comes after every trade.
theorem Chronicle.enter {i : Instrument α} {pos : Position α}
    (hp : Chronicle settings.execution instruments p) (hday : AsOfDay day pending p)
    (h : Opens settings s instruments day i p pos q) :
    Chronicle settings.execution instruments q := by
  obtain ⟨hentered, -, hdate⟩ := entered_of_opens h
  cases h with
  | @intro bar side pos cost fee listed quoted room allowed filled =>
    constructor
    case single =>
      obtain ⟨hfree, -, -, -, -, -, -, -, -, -, rfl⟩ := order_filled filled
      exact hp.single.append hfree
    case held =>
      intro x hx
      obtain hx | rfl := mem_book.1 hx
      · exact hp.held x hx
      · exact hentered
    case closed => exact hp.closed
    case ordered => exact hp.ordered
    case apart => exact hp.apart
    case behind =>
      intro t ht x hx hsame
      obtain hx | rfl := mem_book.1 hx
      · exact hp.behind t ht x hx hsame
      · exact hdate ▸ hday.closed t ht

theorem AsOfDay.enter {i : Instrument α} {pos : Position α} (hp : AsOfDay day pending p)
    (h : Opens settings s instruments day i p pos q) :
    AsOfDay day (fun code => pending code ∧ code ≠ i.code) q := by
  obtain ⟨-, hcode, hdate⟩ := entered_of_opens h
  cases h with
  | @intro bar side pos cost fee listed quoted room allowed filled =>
    refine ⟨hp.closed, fun x hx => ?_, fun x hx hpending => ?_⟩
    · obtain hx | rfl := mem_book.1 hx
      · exact hp.entered x hx
      · exact hdate.le
    · obtain hx | rfl := mem_book.1 hx
      · exact hp.pending x hx hpending.1
      · exact absurd hcode hpending.2

end Steps

theorem chronicle_of_clears (hcodes : (instruments.map (·.code)).Nodup)
    (hp : Chronicle e instruments p) (hday : AsOfDay day (fun _ => True) p)
    (h : Clears e instruments day p q) :
    Chronicle e instruments q ∧ AsOfDay day (fun _ => True) q := by
  induction h with
  | refl => exact ⟨hp, hday⟩
  | tail _ hclose ih =>
    obtain ⟨code, hclose⟩ := hclose
    exact ⟨ih.1.close hcodes ih.2 trivial hclose, ih.2.close hclose⟩

-- What is true while instruments are visited one after the other: those that are still to come
-- hold nothing that was entered on the day.
structure Visiting (e : Execution α) (instruments : List (Instrument α)) (day : Date)
    (trading : List (Instrument α × Nat × α)) (p : Portfolio α) : Prop where
  codes : (trading.map fun x => x.1.code).Nodup
  chronicle : Chronicle e instruments p
  asOf : AsOfDay day (fun code => code ∈ trading.map fun x => x.1.code) p

theorem visiting_of_visits (hcodes : (instruments.map (·.code)).Nodup)
    {trading : List (Instrument α × Nat × α)} {fills : List (Position α)}
    (htrading : ∀ x ∈ trading, x ∈ today instruments day)
    (hp : Visiting settings.execution instruments day trading p)
    (h : on (performAll settings s (visits trading day)) p = (.ok fills, q)) :
    Visiting settings.execution instruments day [] q := by
  refine visits_invariant (fun {x rest a b} ha hclose => ?_) (fun {x rest pos a b} ha hopen => ?_)
    (fun {x rest a} ha => ?_) htrading hp h
  · exact ⟨ha.codes, ha.chronicle.close hcodes ha.asOf (by simp) hclose, ha.asOf.close hclose⟩
  · obtain ⟨hfirst, hrest⟩ := List.nodup_cons.1 ha.codes
    refine ⟨hrest, ha.chronicle.enter ha.asOf hopen,
      (ha.asOf.enter hopen).imp fun code hcode => ⟨List.mem_cons_of_mem _ hcode, ?_⟩⟩
    rintro rfl
    exact hfirst hcode
  · exact ⟨(List.nodup_cons.1 ha.codes).2, ha.chronicle,
      ha.asOf.imp fun code hcode => List.mem_cons_of_mem _ hcode⟩

omit [Amount α] in
theorem today_codes_sublist (instruments : List (Instrument α)) (day : Date) :
    ((today instruments day).map fun x => x.1.code).Sublist (instruments.map (·.code)) := by
  induction instruments with
  | nil => exact .slnil
  | cons i instruments ih =>
    rw [today, List.filterMap_cons, List.map_cons]
    split
    · exact ih.cons _
    · rename_i x hx
      obtain ⟨k, -, hx⟩ := Option.bind_eq_some_iff.1 hx
      obtain ⟨bar, -, hx⟩ := Option.bind_eq_some_iff.1 hx
      cases hx
      exact ih.cons_cons _

theorem chronicle_of_day (hcodes : (instruments.map (·.code)).Nodup)
    (hp : Chronicle settings.execution instruments p) (hday : AsOfDay day (fun _ => True) p)
    (h : on (replayDay settings s instruments day) p = (.ok (), q)) :
    Chronicle settings.execution instruments q ∧ AsOfDay day (fun _ => False) q := by
  obtain ⟨a, b, fills, equity, hclears, hvisits, -, -, -, rfl⟩ := replayDay_ok h
  obtain ⟨ha, hdaya⟩ := chronicle_of_clears hcodes hp hday hclears
  have ha : Visiting settings.execution instruments day (today instruments day) a :=
    ⟨(today_codes_sublist instruments day).nodup hcodes, ha, hdaya.imp fun _ _ => trivial⟩
  obtain ⟨-, hb, hdayb⟩ := visiting_of_visits hcodes (fun _ hx => hx) ha hvisits
  -- the record touches the curve only
  exact ⟨⟨hb.single, hb.held, hb.closed, hb.ordered, hb.apart, hb.behind⟩,
    ⟨hdayb.closed, hdayb.entered, fun pos hpos hf => hf.elim⟩⟩

theorem chronicle_of_replay (hcodes : (instruments.map (·.code)).Nodup) {days : List Date}
    (hdays : days.Pairwise (· < ·)) (hp : Chronicle settings.execution instruments p)
    (hbefore : ∀ day ∈ days, AsOfDay day (fun _ => True) p)
    (h : on (replay settings s instruments days) p = (.ok (), q)) :
    Chronicle settings.execution instruments q := by
  induction days generalizing p with
  | nil =>
    cases h
    exact hp
  | cons day days ih =>
    rw [replay_cons] at h
    obtain ⟨_, r, hday, h⟩ := on_bind_eq_ok.1 h
    obtain ⟨hr, hrday⟩ := chronicle_of_day hcodes hp (hbefore day List.mem_cons_self) hday
    obtain ⟨hlater, hdays⟩ := List.pairwise_cons.1 hdays
    exact ih hdays hr (fun next hnext => hrday.later (hlater next hnext)) h

-- The trades of a run are its history: each goes from a bar of its instrument to a later one, at
-- the closes of both with the slippage of its side. They are in order of exit, and an instrument
-- is never entered before it has been left.
theorem trades_are_history {settings : Settings α} {s : Strategy α}
    {instruments : List (Instrument α)} {days : Option (List Date)} {r : Result α}
    (h : run settings s instruments days = .ok r) :
    (∀ t ∈ r.portfolio.trades, t.entryDate < t.exitDate ∧
      ∃ i ∈ instruments, i.code = t.code ∧ ∃ j k entry exit,
        i.indexOf? t.entryDate = some j ∧ i.bars[j]? = some entry ∧ entry.date = t.entryDate ∧
        i.indexOf? t.exitDate = some k ∧ i.bars[k]? = some exit ∧ exit.date = t.exitDate ∧
        (0 < t.quantity ∧ t.entryPrice = settings.execution.buyPrice entry.close ∧
            t.exitPrice = settings.execution.sellPrice exit.close ∨
          t.quantity < 0 ∧ t.entryPrice = settings.execution.sellPrice entry.close ∧
            t.exitPrice = settings.execution.buyPrice exit.close)) ∧
      (r.portfolio.trades.Pairwise fun t u => t.exitDate ≤ u.exitDate) ∧
      (r.portfolio.trades.Pairwise fun t u => t.code = u.code → t.exitDate ≤ u.entryDate) ∧
      (∀ t ∈ r.portfolio.trades, ∀ pos ∈ r.portfolio.positions, t.code = pos.code →
        t.exitDate ≤ pos.entryDate) ∧
      (r.portfolio.positions.map fun pos => pos.code).Nodup := by
  obtain ⟨hcodes, p, hp, rfl⟩ := (run_eq_ok_iff _ _ _).1 h
  obtain ⟨-, hdays, -⟩ := replay_dates hp
  have hlog : Chronicle settings.execution instruments p :=
    chronicle_of_replay hcodes hdays (.new _) (fun day _ => .new day _ _) hp
  refine ⟨fun t ht => ?_, hlog.ordered, hlog.apart, hlog.behind, hlog.single⟩
  obtain ⟨hbefore, i, hi, hcode, entry, exit, hentry, hexit, hside⟩ := hlog.closed t ht
  obtain ⟨j, hj, hjbar⟩ := Instrument.barOn?_eq_some_iff.1 hentry
  obtain ⟨k, hk, hkbar⟩ := Instrument.barOn?_eq_some_iff.1 hexit
  exact ⟨hbefore, i, hi, hcode, j, k, entry, exit, hj, hjbar, Instrument.date_of_barOn? hentry,
    hk, hkbar, Instrument.date_of_barOn? hexit, hside⟩

-- Three days of March.
def march (day : Nat) (h : 1 ≤ day ∧ day ≤ 31) : Date :=
  ⟨2025, 3, day, by decide, by decide, h⟩

def threeDays : List Date :=
  [march 3 (by decide), march 4 (by decide), march 5 (by decide)]

-- An instrument with a bar on each of them.
def closingAt (code : String) (closes : List Nat) : Instrument α where
  code := code
  exchange := "X"
  chart :=
    { bars := (threeDays.zip closes).map fun (day, close) =>
        let price : α := Amount.whole close
        ⟨day, price, price, price, price, 1⟩
      series := [] }

-- The first instrument falls through the stop of a long on the second day, and rises through
-- that of a short on the third.
def whipsaw : List (Instrument α) :=
  [closingAt "AAA" [12, 9, 13], closingAt "BBB" [20, 20, 20]]

-- Long above ten and short below, with stops and room for one position.
def aroundTen : Strategy α where
  name := "around ten"
  description := ""
  entryLong := .compare .above (.price .close) (.constant (Amount.whole 10))
  exitLong := .compare .below (.price .close) (.constant 0)
  entryShort := some (.compare .below (.price .close) (.constant (Amount.whole 10)))
  exitShort := none
  positionSize := Amount.ratio 1 2
  stopLossPct := Amount.whole 10
  takeProfitPct := 0
  maxPositions := 1

def withShorts : Settings α :=
  { Settings.standard with
    allowShorting := true
    slippagePct := 1
    commissionPerTrade := Amount.whole 5 }

theorem whipsaw_run :
    ∃ r : Result Float, run withShorts aroundTen whipsaw (some threeDays) = .ok r ∧
      r.portfolio.trades.map (·.quantity) = [4125, -4868] ∧
      r.portfolio.positions.map (·.quantity) = [2520] := by
  have hseen : (run withShorts aroundTen whipsaw (some threeDays)).toOption.map
      (fun r : Result Float =>
        (r.portfolio.trades.map (·.quantity), r.portfolio.positions.map (·.quantity))) =
      some ([4125, -4868], [2520]) := by
    decide +kernel
  cases hrun : (run withShorts aroundTen whipsaw (some threeDays) : Except Error (Result Float)) with
  | error f =>
    rw [hrun] at hseen
    cases hseen
  | ok r =>
    rw [hrun] at hseen
    have hr := Prod.mk.inj (Option.some.inj hseen)
    exact ⟨r, rfl, hr.1, hr.2⟩

-- A long that is stopped, a short entered on the same day and stopped as well, and a long.
theorem trades_are_history_whipsaw :
    ∃ r : Result Float, run withShorts aroundTen whipsaw (some threeDays) = .ok r ∧
      r.portfolio.trades.map (·.quantity) = [4125, -4868] ∧
      r.portfolio.positions.map (·.quantity) = [2520] ∧
      (∀ t ∈ r.portfolio.trades, t.entryDate < t.exitDate) ∧
      (∀ t ∈ r.portfolio.trades, ∀ pos ∈ r.portfolio.positions, t.code = pos.code →
        t.exitDate ≤ pos.entryDate) := by
  obtain ⟨r, hrun, htrades, hpositions⟩ := whipsaw_run
  obtain ⟨htrips, -, -, hbehind, -⟩ := trades_are_history hrun
  exact ⟨r, hrun, htrades, hpositions, fun t ht => (htrips t ht).1, hbehind⟩

end BarReplay.Engine
