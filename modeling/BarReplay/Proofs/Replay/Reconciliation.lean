import Mathlib.Data.Rat.Floor
import BarReplay.Machine
import BarReplay.Proofs.Portfolio.Valuation
import BarReplay.Proofs.Replay.Failures
import BarReplay.Proofs.Replay.NoLookahead
import BarReplay.Proofs.Replay.TradeLog

namespace BarReplay.Engine

open Portfolio Action

section Run

variable {α : Type}

-- The close of an instrument on a day, by its code.
def closeOn? (instruments : List (Instrument α)) (day : Date) (code : String) : Option α :=
  (instruments.find? (·.code == code)).bind fun i => (i.barOn? day).map (·.close)

theorem prices_today_cons (i : Instrument α) (instruments : List (Instrument α)) (day : Date) :
    prices (today (i :: instruments) day) =
      ((i.barOn? day).map fun bar => (i.code, bar.close)).toList ++
        prices (today instruments day) := by
  rw [today, List.filterMap_cons, Instrument.barOn?]
  cases i.indexOf? day with
  | none => rfl
  | some k =>
    simp only [Option.bind_eq_bind, Option.bind_some]
    cases i.bars[k]? <;> rfl

-- With codes of their own, instruments are priced at their closes.
theorem lookup_prices {instruments : List (Instrument α)}
    (hcodes : (instruments.map (·.code)).Nodup) (day : Date) (code : String) :
    (prices (today instruments day)).lookup code = closeOn? instruments day code := by
  induction instruments with
  | nil => rfl
  | cons i instruments ih =>
    rw [List.map_cons, List.nodup_cons] at hcodes
    have ih := ih hcodes.2
    rw [prices_today_cons, closeOn?, List.find?_cons]
    by_cases hcode : i.code = code
    · subst hcode
      have hrest : closeOn? instruments day i.code = none := by
        rw [closeOn?, List.find?_eq_none.2 fun j hj => ?_, Option.bind_none]
        simpa using fun heq : j.code = i.code => hcodes.1 (heq ▸ List.mem_map_of_mem hj)
      cases hbar : i.barOn? day with
      | none => simp [ih, hrest, hbar]
      | some bar => simp [hbar]
    · have hne : (i.code == code) = false := by simpa using hcode
      have hne' : (code == i.code) = false := by simpa using Ne.symm hcode
      cases i.barOn? day with
      | none => simpa [hne, closeOn?] using ih
      | some bar => simpa [hne, hne', List.lookup_cons, closeOn?] using ih

variable [Amount α] {settings : Settings α} {s : Strategy α} {instruments : List (Instrument α)}
  {days : Option (List Date)} {r : Result α}

-- The portfolio of a run after the last of its days that is not later than `d`.
def portfolioAt (settings : Settings α) (s : Strategy α) (instruments : List (Instrument α))
    (days : Option (List Date)) (d : Date) : Portfolio α :=
  asOf (.new settings.initialCapital)
    (history settings s instruments (.new settings.initialCapital)
      (days.getD (calendar instruments))) d

-- After a last day, the point of that day is the equity of the portfolio.
theorem equity_of_last_day {early : List Date} {day : Date} {p : Portfolio α} {capital : α}
    (h : on (replay settings s instruments (early ++ [day])) (.new capital) = (.ok (), p))
    {x : EquityPoint α} (hx : x ∈ p.curve) (hdate : x.date = day) :
    p.equity (prices (today instruments day)) = .ok x.equity := by
  obtain ⟨-, hincreasing, -⟩ := replay_dates h
  rw [replay_append, replay_cons, replay_nil] at h
  obtain ⟨_, m, hearly, h⟩ := on_bind_eq_ok.1 h
  obtain ⟨_, _, hday, h⟩ := on_bind_eq_ok.1 h
  cases h
  obtain ⟨a, b, fills, equity, -, -, hcurve, hequity, -, rfl⟩ := replayDay_ok hday
  cases List.mem_append.1 hx with
  | inr hlast =>
    rw [List.mem_singleton.1 hlast]
    exact hequity
  | inl hbefore =>
    -- the points before are those of earlier days
    have hmem : x.date ∈ early := by
      obtain ⟨hdates, -, -⟩ := replay_dates hearly
      rw [curve_new, List.map_nil, List.nil_append] at hdates
      exact hdates ▸ hcurve ▸ List.mem_map_of_mem hbefore
    have hlt := (List.pairwise_append.1 hincreasing).2.2 x.date hmem day (by simp)
    exact absurd hdate hlt.ne

-- A point of the curve is the equity of the portfolio after its day, and this portfolio has the
-- trades that were closed until then.
theorem point_of_run (h : run settings s instruments days = .ok r) {x : EquityPoint α}
    (hx : x ∈ r.portfolio.curve) :
    (∃ early, on (replay settings s instruments early) (.new settings.initialCapital) =
        (.ok (), portfolioAt settings s instruments days x.date)) ∧
      (portfolioAt settings s instruments days x.date).equity
        (prices (today instruments x.date)) = .ok x.equity ∧
      (portfolioAt settings s instruments days x.date).trades =
        r.portfolio.trades.filter (·.exitDate ≤ x.date) := by
  obtain ⟨hdates, hincreasing⟩ := dates_of_run h
  obtain ⟨hcodes, q, hq, rfl⟩ := (run_eq_ok_iff _ _ _).1 h
  have hmem : x.date ∈ days.getD (calendar instruments) := hdates ▸ List.mem_map_of_mem hx
  obtain ⟨front, back, hsplit⟩ := List.append_of_mem hmem
  rw [portfolioAt, hsplit, List.append_cons]
  rw [hsplit, List.append_cons] at hq hincreasing
  rw [replay_append] at hq
  obtain ⟨_, p, hp, hrest⟩ := on_bind_eq_ok.1 hq
  obtain ⟨hfront, -, hbetween⟩ := List.pairwise_append.1 hincreasing
  have hearly : ∀ e ∈ front ++ [x.date], e ≤ x.date := by
    intro e he
    cases List.mem_append.1 he with
    | inl he => exact ((List.pairwise_append.1 hfront).2.2 e he x.date (by simp)).le
    | inr he => exact (List.mem_singleton.1 he).le
  have hlate : ∀ e ∈ back, x.date < e := hbetween x.date (by simp)
  rw [asOf_history settings s instruments hearly hlate hp]
  have hfirst : Records (· ≤ x.date) (.new settings.initialCapital)
      (on (replay settings s instruments (front ++ [x.date])) (.new settings.initialCapital)).2 :=
    replay_records hearly _
  have hafter : Records (x.date < ·) p (on (replay settings s instruments back) p).2 :=
    replay_records hlate p
  rw [hp] at hfirst
  rw [hrest] at hafter
  obtain ⟨hcurve, htrades⟩ := Records.filter hfirst hafter
  have hxp : x ∈ p.curve := by
    rw [hcurve]
    exact List.mem_filter.2 ⟨hx, by simp⟩
  exact ⟨⟨_, hp⟩, equity_of_last_day hp hxp rfl, htrades⟩

theorem replay_initialCapital (settings : Settings α) (s : Strategy α)
    (instruments : List (Instrument α)) (capital : α) (days : List Date) :
    Moves (Keeps fun p : Portfolio α => p.initialCapital = capital)
      (replay settings s instruments days) :=
  replay_moves fun _ _ => replayDay_moves
    (fun _ _ => exit_moves (fun _ hp => hp) fun _ _ _ _ _ _ hp => hp)
    (fun _ _ _ _ => enter_moves fun _ _ _ _ _ hp => hp) fun _ => record_moves fun _ hp => hp

-- After the day of its last point a run changes nothing.
theorem portfolioAt_last (h : run settings s instruments days = .ok r) {x : EquityPoint α}
    (hx : r.portfolio.curve.getLast? = some x) :
    portfolioAt settings s instruments days x.date = r.portfolio := by
  obtain ⟨hdates, hincreasing⟩ := dates_of_run h
  obtain ⟨hcodes, q, hq, rfl⟩ := (run_eq_ok_iff _ _ _).1 h
  obtain ⟨front, hfront⟩ := List.getLast?_eq_some_iff.1 hx
  change q.curve = front ++ [x] at hfront
  change q.curve.map (·.date) = _ at hdates
  rw [hfront, List.map_append, List.map_singleton] at hdates
  have hearly : ∀ e ∈ days.getD (calendar instruments), e ≤ x.date := by
    intro e he
    rw [← hdates] at he hincreasing
    cases List.mem_append.1 he with
    | inl he => exact ((List.pairwise_append.1 hincreasing).2.2 e he x.date (by simp)).le
    | inr he => exact (List.mem_singleton.1 he).le
  have hlate : ∀ e ∈ ([] : List Date), x.date < e := by simp
  have hasof := asOf_history settings s instruments hearly hlate hq
  rw [List.append_nil] at hasof
  exact hasof

end Run

section Exact

variable {K : Type} [Field K] [LinearOrder K] [FloorRing K] [Roots K]

-- The positions with a price and those without one are summed up apart.
theorem sum_openProfit (positions : List (Position K)) (quote : Position K → Option K) :
    (positions.map fun pos => openProfit pos (quote pos)).sum =
      (positions.filterMap fun pos => (quote pos).map fun price =>
        (pos.quantity : K) * (price - pos.entryPrice) - pos.entryCommission).sum -
      ((positions.filter fun pos => (quote pos).isNone).map Position.committed).sum := by
  induction positions with
  | nil => simp
  | cons pos positions ih =>
    rw [List.map_cons, List.sum_cons, ih]
    cases hquote : quote pos with
    | none =>
      simp only [hquote, openProfit, List.filterMap_cons, Option.map_none, List.filter_cons,
        Option.isNone_none, if_true, List.map_cons, List.sum_cons]
      ring
    | some price =>
      simp only [hquote, openProfit, List.filterMap_cons, Option.map_some, List.filter_cons,
        Option.isNone_some, Bool.false_eq_true, if_false, List.sum_cons]
      ring

theorem equity_balanced {capital : K} {p : Portfolio K} (hp : Balanced capital p)
    (quotes : PriceMap K) :
    p.equity quotes = .ok (capital + (p.trades.map ClosedTrade.pnl).sum +
      (p.positions.map fun pos => openProfit pos (quotes.lookup pos.code)).sum) := by
  rw [equity_exact, hp.cash, sub_add_cancel]

variable (settings : Settings K) (s : Strategy K) (instruments : List (Instrument K))

theorem replay_balanced (capital : K) (days : List Date) :
    Moves (Keeps (Balanced capital)) (replay settings s instruments days) :=
  replay_moves fun day _ => replayDay_moves
    (fun code price => exit_balanced capital code price day _)
    (fun side code exchange price => enter_balanced capital side code exchange price day s _)
    fun _ => record_moves fun _ hp => ⟨hp.single, hp.cash⟩

-- Exact arithmetic never fails.
theorem StepsFail.exact : StepsFail (fun _ => False) settings s where
  exit code price day p f q h := by
    obtain ⟨pos, fault, -, hfails, -⟩ := exit_error h
    obtain ⟨trade, returned, hsettle, -⟩ := settle_exact pos price day settings.execution
    cases hfails.symm.trans hsettle
  enter side code exchange price day p f q h := by
    obtain ⟨fault, hfails, -⟩ := enter_error h
    obtain ⟨entry, horder⟩ := quotedOrder_exact p side code exchange price day s settings.execution
    cases hfails.symm.trans horder
  equity p quotes fault h := by
    rw [equity_exact] at h
    cases h

theorem run_exact_returns {days : Option (List Date)}
    (hcodes : (instruments.map (·.code)).Nodup)
    (hdays : (days.getD (calendar instruments)).Pairwise (· < ·)) :
    ∃ r, run settings s instruments days = .ok r := by
  cases hrun : run settings s instruments days with
  | ok r => exact ⟨r, rfl⟩
  | error e =>
    obtain ⟨hrepeated, -⟩ | ⟨-, f, p, hreplay, -⟩ := run_eq_error_iff.1 hrun
    · exact absurd hcodes hrepeated
    · obtain hfalse | ⟨-, hnot⟩ := (StepsFail.exact settings s).replay hreplay
      · exact hfalse.elim
      · exact absurd ⟨hdays, by simp [curve_new]⟩ hnot

variable {settings : Settings K} {s : Strategy K} {instruments : List (Instrument K)}
  {days : Option (List Date)} {r : Result K}

-- A point of the curve is the initial capital with the profits of the trades closed until then,
-- and with those of the open positions.
theorem point_exact (h : run settings s instruments days = .ok r) {x : EquityPoint K}
    (hx : x ∈ r.portfolio.curve) :
    x.equity = settings.initialCapital +
      ((r.portfolio.trades.filter (·.exitDate ≤ x.date)).map ClosedTrade.pnl).sum +
      ((portfolioAt settings s instruments days x.date).positions.map fun pos =>
        openProfit pos (closeOn? instruments x.date pos.code)).sum := by
  obtain ⟨⟨early, hearly⟩, hequity, htrades⟩ := point_of_run h hx
  have hcodes := ((run_eq_ok_iff _ _ _).1 h).1
  have hbalanced := replay_balanced settings s instruments settings.initialCapital early _
    (.new settings.initialCapital)
  rw [hearly] at hbalanced
  rw [equity_balanced hbalanced] at hequity
  simp only [lookup_prices hcodes, htrades] at hequity
  exact (Except.ok.inj hequity).symm

-- A run that ends without a position has gained what its trades have gained.
theorem finalEquity_exact (h : run settings s instruments days = .ok r)
    (hflat : r.portfolio.positions = []) :
    r.portfolio.finalEquity =
      settings.initialCapital + (r.portfolio.trades.map ClosedTrade.pnl).sum := by
  obtain ⟨hdates, -⟩ := dates_of_run h
  cases hlast : r.portfolio.curve.getLast? with
  | none =>
    -- no day has passed
    rw [List.getLast?_eq_none_iff] at hlast
    rw [hlast] at hdates
    obtain ⟨-, p, hp, rfl⟩ := (run_eq_ok_iff _ _ _).1 h
    rw [← hdates, List.map_nil, replay_nil] at hp
    cases hp
    simp [finalEquity, Portfolio.new]
  | some x =>
    have hx : x ∈ r.portfolio.curve := List.mem_of_getLast? hlast
    have hall : ∀ t ∈ r.portfolio.trades, t.exitDate ≤ x.date := by
      obtain ⟨-, -, htrades⟩ := point_of_run h hx
      rw [portfolioAt_last h hlast] at htrades
      intro t ht
      rw [htrades] at ht
      simpa using (List.mem_filter.1 ht).2
    have hpoint := point_exact h hx
    rw [portfolioAt_last h hlast, hflat,
      List.filter_eq_self.2 fun t ht => decide_eq_true (hall t ht)] at hpoint
    simp only [finalEquity, hlast, hpoint, List.map_nil, List.sum_nil, add_zero]

theorem totalReturn_exact (h : run settings s instruments days = .ok r)
    (hflat : r.portfolio.positions = []) (hcapital : 0 < settings.initialCapital) {rate : K}
    {statistics : Metrics.Statistics K} {m : Performance K}
    (hm : r.portfolio.performance statistics rate = .ok m) :
    m.totalReturn * settings.initialCapital = m.trades.totalPnl := by
  have hinitial : r.portfolio.initialCapital = settings.initialCapital := by
    obtain ⟨-, p, hp, rfl⟩ := (run_eq_ok_iff _ _ _).1 h
    have hkept := replay_initialCapital settings s instruments settings.initialCapital
      (days.getD (calendar instruments)) (.new settings.initialCapital) rfl
    rw [hp] at hkept
    exact hkept
  obtain ⟨annualized, -, hm⟩ := except_bind_eq_ok.1 hm
  cases hm
  simp only [hinitial, hcapital, if_true, finalEquity_exact h hflat, TradeStats.of, Amount.sum]
  rw [sub_mul, one_mul, div_mul_cancel₀ _ hcapital.ne', ← List.sum_eq_foldl]
  ring

end Exact

-- The curve reconciles with the trades. A run breaks no rule of the portfolio unless its calendar
-- does not increase, and its curve has the dates of the calendar. In exact arithmetic each point
-- is the initial capital with the profits of closed trades, those of open positions that have a
-- price, and without what is bound in the others; a run that ends without positions has returned
-- what its trades have gained.
theorem equity_reconciles_with_trades :
    (∀ {α : Type} [Amount α] (settings : Settings α) (s : Strategy α)
        (instruments : List (Instrument α)),
      (∀ e, run settings s instruments none = .error e → ¬ e.IsViolation) ∧
      (∀ days, (∀ e, run settings s instruments (some days) = .error e → e.IsViolation) →
        ((∃ e, run settings s instruments (some days) = .error e ∧ e.IsViolation) ↔
          ¬ days.Pairwise (· < ·))) ∧
      ∀ days r, run settings s instruments days = .ok r →
        r.portfolio.curve.map (·.date) = days.getD (calendar instruments)) ∧
    ∀ {K : Type} [Field K] [LinearOrder K] [FloorRing K] [Roots K] (settings : Settings K)
        (s : Strategy K) (instruments : List (Instrument K)) (days : Option (List Date)),
      ((instruments.map (·.code)).Nodup →
        (days.getD (calendar instruments)).Pairwise (· < ·) →
          ∃ r, run settings s instruments days = .ok r) ∧
      ∀ r, run settings s instruments days = .ok r →
        (∀ x ∈ r.portfolio.curve,
          let held := (portfolioAt settings s instruments days x.date).positions
          x.equity = settings.initialCapital +
            ((r.portfolio.trades.filter (·.exitDate ≤ x.date)).map (·.pnl)).sum +
            (held.filterMap fun pos => (closeOn? instruments x.date pos.code).map fun close =>
              (pos.quantity : K) * (close - pos.entryPrice) - pos.entryCommission).sum -
            ((held.filter fun pos => (closeOn? instruments x.date pos.code).isNone).map fun pos =>
              (pos.quantity.natAbs : K) * pos.entryPrice + pos.entryCommission).sum) ∧
        (r.portfolio.positions = [] → 0 < settings.initialCapital →
          ∀ statistics rate m, r.portfolio.performance statistics rate = .ok m →
            m.totalReturn * settings.initialCapital = m.trades.totalPnl) := by
  refine ⟨fun settings s instruments => ⟨fun e he => ?_, fun days hviolation => ⟨?_, ?_⟩, ?_⟩,
    fun settings s instruments days => ⟨run_exact_returns settings s instruments, fun r hr =>
      ⟨fun x hx => ?_, fun hflat hcapital _ rate m hm => totalReturn_exact hr hflat hcapital hm⟩⟩⟩
  · exact not_violation_of_increasing none (calendar_pairwise instruments) he
  · rintro ⟨e, he, hviolated⟩ hincreasing
    exact not_violation_of_increasing (some days) hincreasing he hviolated
  · intro hnot
    cases hrun : run settings s instruments (some days) with
    | ok r => exact absurd (dates_of_run hrun).2 hnot
    | error e => exact ⟨e, rfl, hviolation e hrun⟩
  · exact fun days r hr => (dates_of_run hr).1
  · rw [point_exact hr hx, sum_openProfit, ← add_sub_assoc]
    rfl

-- The first instrument is stopped out of a long and of a short, and the second one has no bar
-- on the last day.
def stoppedOut {α : Type} [Amount α] : List (Instrument α) :=
  [closingAt "AAA" [12, 9, 10], closingAt "BBB" [20, 20]]

section Rational

-- Rational amounts with a root and a power that do nothing.
@[reducible] def plainRoots : Roots ℚ where
  sqrt x := x
  power x _ := .ok x

attribute [local instance] plainRoots

theorem performance_rational (p : Portfolio ℚ) (statistics : Metrics.Statistics ℚ) (rate : ℚ) :
    ∃ m, p.performance statistics rate = .ok m := by
  have hannualized (x : ℚ) (points : Int) : ∃ y, Metrics.annualized x points = .ok y := by
    unfold Metrics.annualized
    split
    · exact ⟨_, rfl⟩
    · simp only
      split <;> exact ⟨_, rfl⟩
  obtain ⟨y, hy⟩ := hannualized
    (if 0 < p.initialCapital then p.finalEquity / p.initialCapital - 1 else 0) p.curve.length
  exact ⟨_, except_bind_eq_ok.2 ⟨y, hy, rfl⟩⟩

theorem equity_reconciles_stoppedOut :
    ∃ r : Result ℚ, run withShorts aroundTen stoppedOut (some threeDays) = .ok r ∧
      r.portfolio.trades.map (·.quantity) = [4125, -4868] ∧ r.portfolio.positions = [] ∧
      r.portfolio.curve.map (·.date) = threeDays ∧
      ∃ m, r.portfolio.performance Machine.statistics 0 = .ok m ∧
        m.totalReturn * 100000 = m.trades.totalPnl := by
  have hseen : (run withShorts aroundTen stoppedOut (some threeDays)).toOption.map
      (fun r : Result ℚ => (r.portfolio.trades.map (·.quantity), r.portfolio.positions.length)) =
      some ([4125, -4868], 0) := by
    decide +kernel
  cases hrun : (run withShorts aroundTen stoppedOut (some threeDays) : Except Error (Result ℚ)) with
  | error e =>
    rw [hrun] at hseen
    cases hseen
  | ok r =>
    rw [hrun] at hseen
    obtain ⟨htrades, hpositions⟩ := Prod.mk.inj (Option.some.inj hseen)
    have hflat : r.portfolio.positions = [] := List.length_eq_zero_iff.1 hpositions
    have hcapital : (0 : ℚ) < (withShorts : Settings ℚ).initialCapital := by decide
    have hdates := (equity_reconciles_with_trades.1 withShorts aroundTen stoppedOut).2.2 _ r hrun
    have hexact := (equity_reconciles_with_trades.2 withShorts aroundTen stoppedOut _).2 r hrun
    obtain ⟨m, hm⟩ := performance_rational r.portfolio Machine.statistics 0
    exact ⟨r, rfl, htrades, hflat, hdates, m, hm, hexact.2 hflat hcapital Machine.statistics 0 m hm⟩

end Rational

end BarReplay.Engine
