import BarReplay.Proofs.Replay.Truncation
import BarReplay.Proofs.Rule.Direct
import BarReplay.Proofs.Rule.Sites

namespace BarReplay

open Indicator

namespace Engine

open Portfolio Action

variable {α : Type} [Amount α]

-- Two instruments between which a strategy sees no difference.
structure SameFor (s : Strategy α) (i j : Instrument α) : Prop where
  code : i.code = j.code
  exchange : i.exchange = j.exchange
  bars : i.bars = j.bars
  holds : ∀ r ∈ s.rules, ∀ index, r.holds i.chart index = r.holds j.chart index

theorem forIn_forall₂ {m : Type → Type} [Monad m] {β γ δ : Type} {R : β → γ → Prop}
    {xs : List β} {ys : List γ} (h : List.Forall₂ R xs ys) {init : δ}
    {f : β → δ → m (ForInStep δ)} {g : γ → δ → m (ForInStep δ)}
    (hfg : ∀ x y, R x y → ∀ c, f x c = g y c) : forIn xs init f = forIn ys init g := by
  induction h generalizing init with
  | nil => rfl
  | cons hxy _ ih =>
    rw [List.forIn_cons, List.forIn_cons, hfg _ _ hxy]
    congr
    funext r
    cases r with
    | done c => rfl
    | yield c => exact ih

variable {s : Strategy α}

theorem wantsExit_same {i j : Instrument α} (h : SameFor s i j) (pos : Position α) (index : Nat) :
    wantsExit s pos i.chart index = wantsExit s pos j.chart index := by
  unfold wantsExit
  split
  · exact h.holds _ (by simp [Strategy.rules]) index
  · split
    · rename_i r hr
      exact h.holds r (by simp [Strategy.rules, hr]) index
    · rfl

theorem entrySide?_same {i j : Instrument α} (h : SameFor s i j) (allowShorting : Bool)
    (index : Nat) :
    entrySide? s allowShorting i.chart index = entrySide? s allowShorting j.chart index := by
  unfold entrySide?
  rw [h.holds s.entryLong (by simp [Strategy.rules]) index]
  split
  · rfl
  · split
    · rename_i r hr
      rw [h.holds r (by simp [Strategy.rules, hr]) index]
    · rfl

theorem visit_same {i j : Instrument α} (h : SameFor s i j) (settings : Settings α) (day : Date)
    (index : Nat) (close : α) :
    visit settings s day i index close = visit settings s day j index close := by
  simp only [visit, wantsExit_same h, entrySide?_same h, h.code, h.exchange]

omit [Amount α] in
theorem today_cons (i : Instrument α) (instruments : List (Instrument α)) (day : Date) :
    today (i :: instruments) day =
      match i.indexOf? day with
      | none => today instruments day
      | some k =>
        match i.bars[k]? with
        | none => today instruments day
        | some b => (i, k, b.close) :: today instruments day := by
  simp only [today, List.filterMap_cons]
  cases i.indexOf? day with
  | none => rfl
  | some k =>
    cases hbar : i.bars[k]? with
    | none => simp [hbar]
    | some b => simp [hbar]

variable {instruments others : List (Instrument α)}

theorem today_same (h : List.Forall₂ (SameFor s) instruments others) (day : Date) :
    List.Forall₂ (fun x y => SameFor s x.1 y.1 ∧ x.2 = y.2) (today instruments day)
      (today others day) := by
  induction h with
  | nil => exact .nil
  | @cons i j _ _ hij _ ih =>
    have hindex : i.indexOf? day = j.indexOf? day := by
      simp only [Instrument.indexOf?, hij.bars]
    rw [today_cons, today_cons, hindex, hij.bars]
    split
    · exact ih
    · split
      · exact ih
      · exact .cons ⟨hij, rfl⟩ ih

theorem prices_same {xs ys : List (Instrument α × Nat × α)}
    (h : List.Forall₂ (fun x y => SameFor s x.1 y.1 ∧ x.2 = y.2) xs ys) :
    prices xs = prices ys := by
  induction h with
  | nil => rfl
  | @cons x y _ _ hxy _ ih =>
    obtain ⟨hsame, hrest⟩ := hxy
    have hhead : (x.1.code, x.2.2) = (y.1.code, y.2.2) := by rw [hsame.code, hrest]
    exact congrArg₂ List.cons hhead ih

theorem replayDay_same (h : List.Forall₂ (SameFor s) instruments others) (settings : Settings α)
    (day : Date) :
    replayDay settings s instruments day = replayDay settings s others day := by
  have htoday := today_same h day
  unfold replayDay
  simp only [prices_same htoday]
  congr
  funext _
  congr 1
  refine forIn_forall₂ htoday fun x y hxy _ => ?_
  obtain ⟨hsame, hrest⟩ := hxy
  simp only [visit_same hsame, hrest]

theorem codes_same (h : List.Forall₂ (SameFor s) instruments others) :
    instruments.map (·.code) = others.map (·.code) := by
  induction h with
  | nil => rfl
  | cons hij _ ih => rw [List.map_cons, List.map_cons, hij.code, ih]

theorem calendar_same (h : List.Forall₂ (SameFor s) instruments others) :
    calendar instruments = calendar others := by
  unfold calendar
  congr 1
  induction h with
  | nil => rfl
  | cons hij _ ih => rw [List.flatMap_cons, List.flatMap_cons, hij.bars, ih]

-- A run is the same for instruments between which the strategy sees no difference.
theorem run_same (h : List.Forall₂ (SameFor s) instruments others) (settings : Settings α)
    (days : Option (List Date)) :
    run settings s instruments days = run settings s others days := by
  have hcodes := codes_same h
  have hexchange : instruments.head?.map (·.exchange) = others.head?.map (·.exchange) := by
    cases h with
    | nil => rfl
    | cons hij _ => exact congrArg some hij.exchange
  have hreplay (ds : List Date) :
      replay settings s instruments ds = replay settings s others ds := by
    unfold replay
    simp only [replayDay_same h]
  unfold run
  simp only [hcodes, hexchange, hreplay, calendar_same h]

end Engine

namespace Instrument

section Built

variable {s : Strategy Float} {code exchange : String} {bars : List (Bar Float)}
  {specs : List (Spec Float)} {i : Instrument Float}

-- Whatever series are asked for as well, the series of the strategy are there.
theorem sound_of_ofBars (hs : ∀ r ∈ s.rules, r.Valid)
    (h : ofBars code exchange bars (some s) specs = .ok i) :
    i.code = code ∧ i.exchange = exchange ∧ i.bars = sortBars bars ∧ i.chart.series.Sound i.bars ∧
      ∀ t ∈ s.rules.flatMap Rule.specs, (i.chart.series.find? t).isSome = true := by
  obtain ⟨table, htable, h⟩ := except_bind_eq_ok.1 h
  cases h
  obtain ⟨hsound, hfound⟩ := Table.ofSpecs_sound htable
  refine ⟨rfl, rfl, rfl, hsound, fun t ht => ?_⟩
  obtain ⟨u, hu, htu⟩ := Strategy.exists_indicator hs ht
  have hself : u.same u = true := by rw [← Spec.same_right_of_same htu, Spec.same_comm, htu]
  rw [Table.find?_of_same htu]
  exact hfound u (List.mem_append_right _ hu) hself

-- So every indicator can be computed for its operand alone, and the rules hold as they do then.
theorem direct_of_ofBars (hs : ∀ r ∈ s.rules, r.Valid)
    (h : ofBars code exchange bars (some s) specs = .ok i) :
    (∀ t ∈ s.rules.flatMap Rule.specs, ∃ series, t.series i.bars = .ok series) ∧
      ∀ r ∈ s.rules, ∀ index,
        r.holds i.chart index = r.holdsBy (Operand.readOver i.bars) index := by
  obtain ⟨-, -, -, hsound, hfound⟩ := sound_of_ofBars hs h
  constructor
  · intro t ht
    obtain ⟨series, hseries⟩ := Option.isSome_iff_exists.1 (hfound t ht)
    obtain ⟨direct, hdirect, -⟩ := hsound.of_find? hseries
    exact ⟨direct, hdirect⟩
  · intro r hr index
    have hread := readAlike_of_sound hsound fun t ht =>
      hfound t (List.mem_flatMap.2 ⟨r, hr, ht⟩)
    exact r.holdsBy_alike hread index

theorem sameFor_of_ofBars (hs : ∀ r ∈ s.rules, r.Valid) {others : List (Spec Float)}
    {j : Instrument Float} (hi : ofBars code exchange bars (some s) specs = .ok i)
    (hj : ofBars code exchange bars (some s) others = .ok j) : Engine.SameFor s i j := by
  obtain ⟨hcode, hexchange, hbars, -⟩ := sound_of_ofBars hs hi
  obtain ⟨hcode', hexchange', hbars', -⟩ := sound_of_ofBars hs hj
  have hsame : i.bars = j.bars := hbars.trans hbars'.symm
  refine ⟨hcode.trans hcode'.symm, hexchange.trans hexchange'.symm, hsame, fun r hr index => ?_⟩
  rw [(direct_of_ofBars hs hi).2 r hr index, (direct_of_ofBars hs hj).2 r hr index, hsame]

-- Without the extra series there is nothing more that can fail.
theorem ofBars_without (hs : ∀ r ∈ s.rules, r.Valid)
    (h : ofBars code exchange bars (some s) specs = .ok i) :
    ∃ j, ofBars code exchange bars (some s) [] = .ok j := by
  obtain ⟨-, -, hbars, -⟩ := sound_of_ofBars hs h
  have hseries : ∀ t ∈ [] ++ s.indicators, ∃ series, t.series (sortBars bars) = .ok series := by
    intro t ht
    obtain ⟨path, hat, -⟩ := s.indicators_inOrder.mem_iff.1 ht
    rw [← hbars]
    exact (direct_of_ofBars hs h).1 t (s.specs_inOrder.mem_iff.2 ⟨path, hat⟩)
  obtain ⟨table, htable⟩ := Table.exists_foldlM hseries []
  exact ⟨_, except_bind_eq_ok.2 ⟨table, htable, rfl⟩⟩

end Built

end Instrument

-- Rules read the series that each of their operands would get by itself, whatever other series
-- an instrument was built with. Extra series make no difference to a run. The indicators of a
-- strategy are what its rules read, each once, in the order of the first places.
theorem operands_read_their_series (s : Strategy Float) (hs : ∀ r ∈ s.rules, r.Valid) :
    (∀ code exchange bars specs i,
      Instrument.ofBars code exchange bars (some s) specs = .ok i →
        i.bars = sortBars bars ∧
        (∀ path t, s.ReadsAt path t → ∃ series, t.series i.bars = .ok series) ∧
        (∀ r ∈ s.rules, ∀ index,
          r.holds i.chart index = r.holdsBy (Operand.readOver i.bars) index) ∧
        ∃ j, Instrument.ofBars code exchange bars (some s) [] = .ok j) ∧
    (∀ instruments others, List.Forall₂
        (fun i j => ∃ code exchange bars specs specs',
          Instrument.ofBars code exchange bars (some s) specs = .ok i ∧
          Instrument.ofBars code exchange bars (some s) specs' = .ok j) instruments others →
      ∀ settings days,
        Engine.run settings s instruments days = Engine.run settings s others days) ∧
    Spec.InOrder (Spec.First s.ReadsAt) s.indicators ∧
    s.indicators.Pairwise (fun t u => t.same u = false) ∧
    ∀ path t, s.ReadsAt path t → ∃ u ∈ s.indicators, t.same u = true := by
  have hmem {path t} (hat : s.ReadsAt path t) : t ∈ s.rules.flatMap Rule.specs :=
    s.specs_inOrder.mem_iff.2 ⟨path, hat⟩
  refine ⟨fun code exchange bars specs i h => ?_, fun instruments others h settings days => ?_,
    s.indicators_inOrder, s.indicators_inOrder.pairwise_of_first,
    fun path t hat => Strategy.exists_indicator hs (hmem hat)⟩
  · obtain ⟨-, -, hbars, -⟩ := Instrument.sound_of_ofBars hs h
    obtain ⟨hseries, hholds⟩ := Instrument.direct_of_ofBars hs h
    exact ⟨hbars, fun path t hat => hseries t (hmem hat), hholds, Instrument.ofBars_without hs h⟩
  · refine Engine.run_same (h.imp fun i j hij => ?_) settings days
    obtain ⟨code, exchange, bars, specs, specs', hi, hj⟩ := hij
    exact Instrument.sameFor_of_ofBars hs hi hj

-- Bands without any width, written with either zero, and an average.
def flatBands : Strategy Float where
  name := "flat bands"
  description := ""
  entryLong :=
    .all [.compare .above (.price .close) (.reading (.windowed .sma 2) .value),
      .not (.compare .above (.price .close) (.reading (.bollinger 5 0.0) .upper))]
  exitLong := .compare .below (.price .close) (.reading (.bollinger 5 (-0.0)) .lower)
  entryShort := none
  exitShort := none
  positionSize := 1.0
  stopLossPct := 0.0
  takeProfitPct := 0.0
  maxPositions := 1

theorem flatBands_valid : ∀ r ∈ flatBands.rules, r.Valid := by
  have haverage : Spec.Valid (α := Float) (.windowed .sma 2) := Nat.le_of_ble_eq_true rfl
  have hzero : Spec.Valid (.bollinger 5 (0.0 : Float)) :=
    ⟨by decide, by decide, by decide⟩
  have hnegative : Spec.Valid (.bollinger 5 (-0.0 : Float)) :=
    ⟨by decide, by decide, by decide⟩
  refine List.forall_mem_cons.2 ⟨?_, List.forall_mem_singleton.2 ?_⟩
  · exact ⟨by decide, ⟨trivial, haverage, by decide⟩, ⟨trivial, hzero, by decide⟩, trivial⟩
  · exact ⟨trivial, hnegative, by decide⟩

-- The table that also holds the bands of the other zero and a longer average.
def flatBandsTable : Table Float :=
  (Table.ofSpecs climb
    ([.bollinger 5 (-0.0), .windowed .sma 3] ++ flatBands.indicators)).toOption.getD []

theorem flatBands_instrument :
    Instrument.ofBars "AAA" "X" climb (some flatBands)
      [.bollinger 5 (-0.0), .windowed .sma 3] = .ok ⟨"AAA", "X", climb, flatBandsTable⟩ := by
  have hsort : sortBars climb = climb := List.mergeSort_of_pairwise (by decide)
  have htable : Table.ofSpecs climb
      ([.bollinger 5 (-0.0), .windowed .sma 3] ++ flatBands.indicators) = .ok flatBandsTable :=
    except_eq_ok_getD (by decide) []
  unfold Instrument.ofBars
  rw [hsort]
  exact except_bind_eq_ok.2 ⟨_, htable, rfl⟩

theorem operands_read_their_series_flatBands :
    (∀ r ∈ flatBands.rules, r.Valid) ∧
      Instrument.ofBars "AAA" "X" climb (some flatBands)
        [.bollinger 5 (-0.0), .windowed .sma 3] = .ok ⟨"AAA", "X", climb, flatBandsTable⟩ ∧
      (∃ j, Instrument.ofBars "AAA" "X" climb (some flatBands) [] = .ok j ∧
        ∀ settings days, Engine.run settings flatBands [⟨"AAA", "X", climb, flatBandsTable⟩] days =
          Engine.run settings flatBands [j] days) ∧
      flatBands.entryLong.holdsBy (Operand.readOver climb) 3 = true := by
  obtain ⟨hbuilt, hruns, -⟩ := operands_read_their_series flatBands flatBands_valid
  obtain ⟨-, -, hholds, j, hj⟩ := hbuilt _ _ _ _ _ flatBands_instrument
  have hrun := hruns [_] [j] (.cons ⟨_, _, _, _, _, flatBands_instrument, hj⟩ .nil)
  have hentry : flatBands.entryLong.holds ⟨climb, flatBandsTable⟩ 3 = true := by decide +kernel
  have hdirect := hholds flatBands.entryLong (by simp [Strategy.rules]) 3
  exact ⟨flatBands_valid, flatBands_instrument, ⟨j, hj, hrun⟩, hdirect.symm.trans hentry⟩

end BarReplay
