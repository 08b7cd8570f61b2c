import BarReplay.Proofs.Replay.IdleDays

namespace BarReplay

variable {α β γ : Type}

namespace Portfolio

open Portfolio.Action

theorem Action.on_bind_congr {a b : Action α β} {f g : β → Action α γ} {p : Portfolio α}
    (hab : on a p = on b p) (hfg : ∀ x q, on b p = (.ok x, q) → on (f x) q = on (g x) q) :
    on (a >>= f) p = on (b >>= g) p := by
  rw [on_bind, on_bind, hab]
  cases hb : on b p with
  | mk ending q =>
    cases ending with
    | error e => rfl
    | ok x => exact hfg x q hb

theorem Action.Moves.keeps {P : Portfolio α → Prop} {a : Action α β} (h : Moves (Keeps P) a)
    {p q : Portfolio α} {ending : Except Failure β} (hq : on a p = (ending, q)) (hp : P p) : P q := by
  have hkept := h p hp
  rwa [hq] at hkept

variable [Amount α]

-- An instrument without a position: its code is free.
abbrev Free (code : String) (p : Portfolio α) : Prop := p.holds code = false

omit [Amount α] in
theorem Free.of_subset {code : String} {p q : Portfolio α} (hp : p.Free code)
    (h : q.positions ⊆ p.positions) : q.Free code := by
  rw [Free, holds_eq_false_iff] at hp ⊢
  exact fun hq => hp (List.map_subset _ h hq)

omit [Amount α] in
theorem Free.ne {code : String} {p : Portfolio α} (hp : p.Free code) {pos : Position α}
    (hpos : pos ∈ p.positions) : pos.code ≠ code := by
  rw [Free, holds_eq_false_iff] at hp
  exact fun heq => hp (heq ▸ List.mem_map_of_mem hpos)

theorem exit_keeps_free (free code : String) (price : α) (day : Date) (e : Execution α) :
    Moves (Keeps (Free free)) (exit code price day e) := by
  have hwithout (p : Portfolio α) (hp : p.Free free) : (p.without code).Free free :=
    hp.of_subset (List.filter_subset_self _)
  exact exit_moves hwithout fun p _ _ _ _ _ => hwithout p

-- An entry takes no code but its own.
theorem enter_keeps_free {free code : String} (hne : code ≠ free) (side : Side)
    (exchange : String) (price : α) (day : Date) (s : Strategy α) (e : Execution α) :
    Moves (Keeps (Free free)) (enter side code exchange price day s e) := by
  refine enter_moves fun p pos cost fee horder hp => ?_
  obtain ⟨-, -, quantity, -, -, -, -, -, -, -, rfl⟩ := order_filled horder
  rw [Free, holds_eq_false_iff] at hp ⊢
  simp only [book, List.map_append, List.mem_append, List.map_cons, List.map_nil,
    List.mem_singleton, opened]
  rintro (hheld | heq)
  · exact hp hheld
  · exact hne heq.symm

section Prices

variable {p : Portfolio α} {prices quotes : PriceMap α}
  (h : ∀ pos ∈ p.positions, prices.lookup pos.code = quotes.lookup pos.code)

include h

theorem equity_congr : p.equity prices = p.equity quotes := by
  unfold Portfolio.equity
  generalize p.cash = cash
  generalize p.positions = positions at h
  induction positions generalizing cash with
  | nil => rfl
  | cons pos positions ih =>
    obtain ⟨hfirst, hrest⟩ := List.forall_mem_cons.1 h
    rw [List.foldlM_cons, List.foldlM_cons, hfirst]
    congr 1
    funext total
    exact ih total hrest

theorem sweep_congr (day : Date) (e : Execution α) :
    on (sweep prices day e) p = on (sweep quotes day e) p := by
  have htriggered : triggered p prices = triggered p quotes :=
    List.filterMap_congr fun pos hpos => by rw [h pos hpos]
  rw [sweep, sweep, on_get_bind, on_get_bind, htriggered]

end Prices

end Portfolio

namespace Engine

open Indicator Portfolio Action

variable [Amount α] {settings : Settings α} {s : Strategy α} {front back : List (Instrument α)}
  {x : Instrument α} {day : Date} {p : Portfolio α}

-- An instrument for which no entry rule that is in force ever holds.
structure Bystander (settings : Settings α) (s : Strategy α) (x : Instrument α) : Prop where
  long : ∀ index < x.bars.length, s.entryLong.holds x.chart index = false
  short : settings.allowShorting = true → ∀ r, s.entryShort = some r →
    ∀ index < x.bars.length, r.holds x.chart index = false

theorem Bystander.entrySide?_eq (hx : Bystander settings s x) {index : Nat}
    (h : index < x.bars.length) : entrySide? s settings.allowShorting x.chart index = none := by
  unfold entrySide?
  rw [hx.long index h]
  cases hshort : s.entryShort with
  | none => rfl
  | some r =>
    cases hallow : settings.allowShorting with
    | false => rfl
    | true => simp [hx.short hallow r hshort index h]

-- A visit of an instrument that is not held and does not signal does nothing.
theorem visit_bystander {index : Nat} (close : α) (hp : p.Free x.code)
    (hentry : entrySide? s settings.allowShorting x.chart index = none) :
    on ((Stage.visit day x index close).perform settings s) p = (.ok [], p) := by
  have hposition : p.position? x.code = none := by
    simpa [Free, holds] using hp
  have hclose : on (closeIfDue settings s day x index close) p = (.ok (), p) := by
    rw [closeIfDue, on_get_bind, hposition]
    rfl
  rw [Stage.perform, on_bind, hclose]
  simp only [openings, on_get_bind, hentry, on_ite]
  split <;> rfl

theorem perform_visit_moves {R : Portfolio α → Portfolio α → Prop} {i : Instrument α} {index : Nat}
    {close : α} (h : Moves R (visit settings s day i index close)) :
    Moves R ((Stage.visit day i index close).perform settings s) := by
  intro p
  have hp := h p
  rw [visit_eq_perform, on_bind] at hp
  cases hstage : on ((Stage.visit day i index close).perform settings s) p with
  | mk ending q =>
    rw [hstage] at hp
    cases ending <;> exact hp

theorem visits_keep_free {code : String} {trading : List (Instrument α × Nat × α)}
    (h : ∀ y ∈ trading, y.1.code ≠ code) :
    Moves (Keeps (Free code)) (performAll settings s (visits trading day)) := by
  induction trading with
  | nil => exact .pure _
  | cons y trading ih =>
    have hy : Moves (Keeps (Free code)) (visit settings s day y.1 y.2.1 y.2.2) :=
      visit_moves (exit_keeps_free code _ _ _ _)
        (fun side => enter_keeps_free (h y List.mem_cons_self) side _ _ _ _ _) _
    exact .bind (perform_visit_moves hy) fun _ =>
      .bind (ih fun z hz => h z (List.mem_cons_of_mem _ hz)) fun _ => .pure _

theorem visits_bystander (hx : Bystander settings s x) {trading : List (Instrument α × Nat × α)}
    (htrading : ∀ y ∈ trading, y.1 = x ∧ y.2.1 < x.bars.length) (hp : p.Free x.code) :
    on (performAll settings s (visits trading day)) p = (.ok [], p) := by
  induction trading with
  | nil => rfl
  | cons y trading ih =>
    obtain ⟨⟨rfl, hindex⟩, hrest⟩ := List.forall_mem_cons.1 htrading
    rw [visits, List.map_cons, performAll, on_bind, visit_bystander _ hp (hx.entrySide?_eq hindex)]
    simp only [List.nil_append, bind_pure]
    exact ih hrest

variable (settings s) in
-- The stages that trade, when an instrument that never signals is put between the others.
theorem visits_insert {before mid after : List (Instrument α × Nat × α)} {code : String}
    (hbefore : ∀ y ∈ before, y.1.code ≠ code) (hp : p.Free code)
    (hmid : ∀ q : Portfolio α, q.Free code →
      on (performAll settings s (visits mid day)) q = (.ok [], q)) :
    on (performAll settings s (visits (before ++ (mid ++ after)) day)) p =
      on (performAll settings s (visits (before ++ after) day)) p := by
  have hkeeps : Moves (Keeps (Free code)) (performAll settings s (visits before day)) :=
    visits_keep_free hbefore
  simp only [visits, List.map_append, performAll_append] at hmid hkeeps ⊢
  refine on_bind_congr rfl fun first q hq => on_bind_congr ?_ fun _ _ _ => rfl
  rw [on_bind, hmid q (hkeeps.keeps hq hp)]
  simp only [List.nil_append, bind_pure]

section Listed

variable (hcodes : ∀ i ∈ front ++ back, i.code ≠ x.code)

omit [Amount α] in
theorem today_insert (front back : List (Instrument α)) (x : Instrument α) (day : Date) :
    today (front ++ x :: back) day = today front day ++ (today [x] day ++ today back day) := by
  rw [← List.singleton_append, today, List.filterMap_append, List.filterMap_append]
  rfl

omit [Amount α] in
theorem lookup_prices_insert {code : String} (hne : code ≠ x.code) :
    (prices (today (front ++ x :: back) day)).lookup code =
      (prices (today (front ++ back) day)).lookup code := by
  have hx : (prices (today [x] day)).lookup code = none := by
    have hnone : today ([] : List (Instrument α)) day = [] := rfl
    rw [prices_today_cons, hnone]
    cases x.barOn? day with
    | none => rfl
    | some bar => simp [prices, hne]
  have hfront : today (front ++ back) day = today front day ++ today back day :=
    List.filterMap_append
  rw [today_insert, hfront]
  simp only [prices, List.map_append, List.lookup_append] at hx ⊢
  rw [hx, Option.none_or]

include hcodes

theorem dealings_keep_free :
    Moves (Keeps (Free x.code)) (dealings settings s (front ++ back) day) := by
  refine .bind (sweep_moves fun code price => exit_keeps_free _ _ _ _ _) fun _ => ?_
  exact visits_keep_free fun y hy => hcodes _ (mem_today hy).1

theorem replayDay_keeps_free :
    Moves (Keeps (Free x.code)) (replayDay settings s (front ++ back) day) := by
  rw [replayDay_eq_dealings]
  refine .bind (dealings_keep_free hcodes) fun _ => .bind (.of_unchanged fun _ => rfl) fun p =>
    .bind (.of_unchanged fun q => ?_) fun equity => ?_
  · cases p.equity (prices (today (front ++ back) day)) <;> rfl
  · intro p hp
    rw [record_on]
    split
    · split <;> exact hp
    · exact hp

theorem replay_keeps_free (days : List Date) :
    Moves (Keeps (Free x.code)) (replay settings s (front ++ back) days) :=
  replay_moves fun _ _ => replayDay_keeps_free hcodes

variable (hx : Bystander settings s x)

include hx

theorem dealings_bystander (hp : p.Free x.code) :
    on (dealings settings s (front ++ x :: back) day) p =
      on (dealings settings s (front ++ back) day) p := by
  have hsplit : today (front ++ back) day = today front day ++ today back day :=
    List.filterMap_append
  refine on_bind_congr (sweep_congr (fun pos hpos => ?_) day _) fun _ q hq => ?_
  · exact lookup_prices_insert (hp.ne hpos)
  · have hfree : q.Free x.code :=
      (sweep_moves fun code price => exit_keeps_free _ _ _ _ _).keeps hq hp
    rw [today_insert, hsplit]
    refine visits_insert settings s (fun y hy => ?_) hfree fun r hr => ?_
    · exact hcodes _ (List.mem_append_left _ (mem_today hy).1)
    · refine visits_bystander hx (fun y hy => ?_) hr
      obtain ⟨hmem, b, hb, -⟩ := mem_today hy
      obtain rfl := List.mem_singleton.1 hmem
      exact ⟨rfl, (List.getElem?_eq_some_iff.1 hb).1⟩

-- A day goes the same way with an instrument that is not held and does not signal.
theorem replayDay_bystander (hp : p.Free x.code) :
    on (replayDay settings s (front ++ x :: back) day) p =
      on (replayDay settings s (front ++ back) day) p := by
  rw [replayDay_eq_dealings, replayDay_eq_dealings]
  refine on_bind_congr (dealings_bystander hcodes hx hp) fun _ q hq => ?_
  have hfree : q.Free x.code := (dealings_keep_free hcodes).keeps hq hp
  have hequity : q.equity (prices (today (front ++ x :: back) day)) =
      q.equity (prices (today (front ++ back) day)) :=
    equity_congr fun pos hpos => lookup_prices_insert (hfree.ne hpos)
  rw [on_get_bind, on_get_bind, hequity]

theorem replay_bystander (hp : p.Free x.code) (days : List Date) :
    on (replay settings s (front ++ x :: back) days) p =
      on (replay settings s (front ++ back) days) p := by
  induction days generalizing p with
  | nil => rfl
  | cons day days ih =>
    rw [replay_cons, replay_cons]
    refine on_bind_congr (replayDay_bystander hcodes hx hp) fun _ q hq => ih ?_
    exact (replayDay_keeps_free hcodes).keeps hq hp

theorem history_bystander (hp : p.Free x.code) (days : List Date) :
    history settings s (front ++ x :: back) p days =
      history settings s (front ++ back) p days := by
  induction days generalizing p with
  | nil => rfl
  | cons day days ih =>
    rw [history, history, replayDay_bystander hcodes hx hp,
      ih (replayDay_keeps_free hcodes p hp)]

end Listed

section Calendars

omit [Amount α] in
-- A further instrument leaves the days of the others in the calendar.
theorem calendar_insert (front back : List (Instrument α)) (x : Instrument α) :
    (calendar (front ++ x :: back)).filter (· ∈ calendar (front ++ back)) =
      calendar (front ++ back) := by
  refine increasing_ext ((calendar_pairwise _).filter _) (calendar_pairwise _) fun d => ?_
  rw [List.mem_filter, decide_eq_true_iff, and_iff_right_iff_imp, mem_calendar, mem_calendar]
  rintro ⟨i, hi, hbar⟩
  have hmem : i ∈ front ++ x :: back := List.perm_middle.mem_iff.2 (List.mem_cons_of_mem _ hi)
  exact ⟨i, hmem, hbar⟩

omit [Amount α] in
-- On its other days there are no bars of the others.
theorem ahead_of_calendar (front back : List (Instrument α)) (x : Instrument α) (capital : α) :
    Ahead (· ∈ calendar (front ++ back)) (front ++ back) (.new capital)
      (calendar (front ++ x :: back)) where
  increasing := calendar_pairwise _
  later := by simp [curve_new]
  idle day _ hday := by
    refine List.eq_nil_iff_forall_not_mem.2 fun y hy => of_decide_eq_false hday ?_
    obtain ⟨hi, b, hb, hdate, -⟩ := mem_today hy
    exact mem_calendar.2 ⟨_, hi, b, List.mem_of_getElem? hb, hdate⟩

variable (hcodes : ∀ i ∈ front ++ back, i.code ≠ x.code) (hx : Bystander settings s x)

include hcodes hx

-- What the instrument adds to a replay is points on days of its own.
theorem replay_calendar_bystander (capital : α) :
    on (replay settings s (front ++ back) (calendar (front ++ back))) (.new capital) =
      ((on (replay settings s (front ++ x :: back) (calendar (front ++ x :: back)))
          (.new capital)).1,
        (on (replay settings s (front ++ x :: back) (calendar (front ++ x :: back)))
          (.new capital)).2.thin (· ∈ calendar (front ++ back))) := by
  have hfree : (Portfolio.new capital).Free x.code := rfl
  have hthin := (ahead_of_calendar front back x capital).replay_eq settings s
  rw [calendar_insert] at hthin
  rw [replay_bystander hcodes hx hfree]
  exact hthin

theorem portfolioAt_bystander (d : Date) :
    portfolioAt settings s (front ++ back) none d =
      (portfolioAt settings s (front ++ x :: back) none d).thin
        (· ∈ calendar (front ++ back)) := by
  have hfree : (Portfolio.new settings.initialCapital).Free x.code := rfl
  have hthin := (ahead_of_calendar front back x settings.initialCapital).asOf_eq settings s d
  rw [calendar_insert] at hthin
  simp only [portfolioAt, Option.getD_none]
  rw [history_bystander hcodes hx hfree]
  exact hthin

-- On a day of its own, the equity is the cash: none of the others has a price.
theorem equity_of_own_day {r : Result α} (h : run settings s (front ++ x :: back) none = .ok r)
    {point : EquityPoint α} (hpoint : point ∈ r.portfolio.curve)
    (hday : point.date ∉ calendar (front ++ back)) :
    (∃ b ∈ x.bars, b.date = point.date) ∧
      point.equity = (portfolioAt settings s (front ++ back) none point.date).cash := by
  obtain ⟨⟨early, hearly⟩, hequity, -⟩ := point_of_run h hpoint
  have hfree : (Portfolio.new settings.initialCapital).Free x.code := rfl
  rw [replay_bystander hcodes hx hfree] at hearly
  have hheld : (portfolioAt settings s (front ++ x :: back) none point.date).Free x.code :=
    (replay_keeps_free hcodes early).keeps hearly hfree
  have hdates : r.portfolio.curve.map (·.date) = calendar (front ++ x :: back) :=
    (dates_of_run h).1
  have hmem : point.date ∈ calendar (front ++ x :: back) := hdates ▸ List.mem_map_of_mem hpoint
  have hidle : today (front ++ back) point.date = [] :=
    (ahead_of_calendar front back x settings.initialCapital).idle _ hmem (decide_eq_false hday)
  constructor
  · obtain ⟨i, hi, hbar⟩ := mem_calendar.1 hmem
    obtain rfl | hi := List.mem_cons.1 (List.perm_middle.mem_iff.1 hi)
    · exact hbar
    · exact absurd (mem_calendar.2 ⟨i, hi, hbar⟩) hday
  · rw [equity_congr fun pos hpos => lookup_prices_insert (hheld.ne hpos), hidle] at hequity
    rw [portfolioAt_bystander hcodes hx]
    exact (Except.ok.inj ((equity_nil _).symm.trans hequity)).symm

end Calendars

-- A run fails on the way where its replay does.
theorem run_eq_step_iff {instruments : List (Instrument α)} {days : Option (List Date)}
    {f : Failure} :
    run settings s instruments days = .error (.step f) ↔
      (instruments.map (·.code)).Nodup ∧
        (on (replay settings s instruments (days.getD (calendar instruments)))
          (.new settings.initialCapital)).1 = .error f := by
  rw [run_eq_error_iff]
  constructor
  · rintro (⟨-, h⟩ | ⟨hcodes, g, p, hreplay, h⟩)
    · cases h
    · cases h
      exact ⟨hcodes, congrArg Prod.fst hreplay⟩
  · rintro ⟨hcodes, hreplay⟩
    exact .inr ⟨hcodes, f, _, Prod.ext hreplay rfl, rfl⟩

-- An instrument that never signals does not influence the others, wherever it stands among them.
theorem bystander_changes_nothing (hcode : x.code ∉ (front ++ back).map (·.code))
    (hx : Bystander settings s x) :
    (∀ r, run settings s (front ++ back) none = .ok r →
      ∃ r', run settings s (front ++ x :: back) none = .ok r' ∧
        r'.portfolio.trades = r.portfolio.trades ∧
        r'.portfolio.positions = r.portfolio.positions ∧
        r'.portfolio.cash = r.portfolio.cash ∧
        r'.portfolio.initialCapital = r.portfolio.initialCapital ∧
        r.portfolio.curve = r'.portfolio.curve.filter (·.date ∈ calendar (front ++ back)) ∧
        r'.portfolio.curve.map (·.date) = calendar (front ++ x :: back) ∧
        ∀ point ∈ r'.portfolio.curve, point.date ∉ calendar (front ++ back) →
          (∃ b ∈ x.bars, b.date = point.date) ∧
            point.equity = (portfolioAt settings s (front ++ back) none point.date).cash) ∧
      (∀ r', run settings s (front ++ x :: back) none = .ok r' →
        ∃ r, run settings s (front ++ back) none = .ok r) ∧
      ∀ f, run settings s (front ++ back) none = .error (.step f) ↔
        run settings s (front ++ x :: back) none = .error (.step f) := by
  have hcodes : ∀ i ∈ front ++ back, i.code ≠ x.code := fun i hi heq =>
    hcode (heq ▸ List.mem_map_of_mem hi)
  have hnodup : ((front ++ x :: back).map (·.code)).Nodup ↔
      ((front ++ back).map (·.code)).Nodup := by
    rw [(List.perm_middle.map _).nodup_iff, List.map_cons, List.nodup_cons]
    exact and_iff_right hcode
  have hreplay := replay_calendar_bystander hcodes hx settings.initialCapital
  refine ⟨fun r hr => ?_, fun r' hr' => ?_, fun f => ?_⟩
  · obtain ⟨hdistinct, p, hp, rfl⟩ := (run_eq_ok_iff _ _ _).1 hr
    rw [Option.getD_none, hreplay] at hp
    obtain ⟨hending, rfl⟩ := Prod.mk.inj hp
    have hrun : run settings s (front ++ x :: back) none = .ok _ := (run_eq_ok_iff _ _ _).2
      ⟨hnodup.2 hdistinct, _, Prod.ext hending rfl, rfl⟩
    exact ⟨_, hrun, rfl, rfl, rfl, rfl, rfl, (dates_of_run hrun).1, fun point hpoint hday =>
      equity_of_own_day hcodes hx hrun hpoint hday⟩
  · obtain ⟨hdistinct, p, hp, rfl⟩ := (run_eq_ok_iff _ _ _).1 hr'
    rw [Option.getD_none] at hp
    rw [hp] at hreplay
    exact ⟨_, (run_eq_ok_iff _ _ _).2 ⟨hnodup.1 hdistinct, _, hreplay, rfl⟩⟩
  · rw [run_eq_step_iff, run_eq_step_iff, hnodup, Option.getD_none, Option.getD_none, hreplay]

-- One bar, which is too few for an average of two, on a day without other bars.
def newcomer : Listing Float where
  code := "BBB"
  exchange := "X"
  bars := [closing (june 10 (by decide)) 20.0]
  specs := []

def newcomerTable : Table Float :=
  (Table.ofSpecs newcomer.bars aboveAverage.indicators).toOption.getD []

def newcomerInstrument : Instrument Float :=
  ⟨"BBB", "X", newcomer.bars, newcomerTable⟩

theorem newcomer_instrument : newcomer.instrument aboveAverage = .ok newcomerInstrument := by
  have hsort : sortBars newcomer.bars = newcomer.bars := List.mergeSort_of_pairwise (by decide)
  have htable : Table.ofSpecs newcomer.bars aboveAverage.indicators = .ok newcomerTable :=
    except_eq_ok_getD (by decide) []
  unfold Listing.instrument Instrument.ofBars
  rw [hsort]
  exact except_bind_eq_ok.2 ⟨_, htable, rfl⟩

theorem newcomer_bystander : Bystander .standard aboveAverage newcomerInstrument where
  long := by decide
  short := nofun

def falling : Instrument Float :=
  ⟨"AAA", "X", fallingBack.bars, fallingBackTable⟩

theorem bystander_changes_nothing_newcomer :
    newcomer.instrument aboveAverage = .ok newcomerInstrument ∧
      ∃ r r', run .standard aboveAverage [falling] none = .ok r ∧
        run .standard aboveAverage [falling, newcomerInstrument] none = .ok r' ∧
        r.portfolio.trades.length = 1 ∧ r'.portfolio.trades = r.portfolio.trades ∧
        r'.portfolio.cash = r.portfolio.cash ∧
        ∀ point ∈ r'.portfolio.curve, point.date = june 10 (by decide) → point.equity =
          (portfolioAt .standard aboveAverage [falling] none (june 10 (by decide))).cash := by
  obtain ⟨r, hrun, hlength⟩ := fallingBack_run
  have hcode : newcomerInstrument.code ∉ ([falling] ++ []).map Instrument.code := by decide
  have hearlier : ∀ b ∈ falling.bars, b.date ≠ june 10 (by decide) := by decide
  obtain ⟨hsame, -⟩ := bystander_changes_nothing hcode newcomer_bystander
  obtain ⟨r', hrun', htrades, -, hcash, -, -, -, hown⟩ := hsame r hrun
  refine ⟨newcomer_instrument, r, r', hrun, hrun', hlength, htrades, hcash,
    fun point hpoint hday => ?_⟩
  rw [← hday]
  refine (hown point hpoint fun hmem => ?_).2
  obtain ⟨i, hi, b, hb, hdate⟩ := mem_calendar.1 hmem
  obtain rfl := List.mem_singleton.1 hi
  exact hearlier b hb (hdate.trans hday)

end Engine

end BarReplay
