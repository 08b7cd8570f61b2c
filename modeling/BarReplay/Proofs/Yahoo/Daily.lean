import BarReplay.Proofs.Market.Sorting
import BarReplay.Proofs.Yahoo.Rows
import BarReplay.Proofs.Yahoo.Source

namespace BarReplay.Yahoo

namespace Response

-- Bars of which those are left out that are followed by one of the same date.
def keepLast (bars : List (Bar Float)) : List (Bar Float) :=
  bars.foldr (fun b later => if later.any (·.date == b.date) then later else b :: later) []

theorem daily_eq (bars : List (Bar Float)) : daily bars = sortBars (keepLast bars) := rfl

-- A row has all its prices, and its time falls on a day.
def Trades (offset : Int) (c : Columns) (stamps : List Int) (place : Nat) (d : Date) : Prop :=
  Complete c place ∧ ∃ t, stamps[place]? = some t ∧ d.Covers (t + offset)

-- A bar is that of the last row of its day.
def Closes (offset : Int) (c : Columns) (stamps : List Int) (place : Nat) (b : Bar Float) : Prop :=
  Trades offset c stamps place b.date ∧ Quotes c place b ∧
    ∀ later, place < later → ¬ Trades offset c stamps later b.date

def ReadableFrom (w : Wanted) (offset : Int) (c : Columns) (stamps : List Int) (place : Nat) :
    Prop :=
  ∀ i t, place ≤ i → stamps[i]? = some t → ReadableRow w offset c i t

-- What is kept of the rows from a place on.
structure Kept (w : Wanted) (offset : Int) (c : Columns) (stamps : List Int) (place : Nat)
    (bars : List (Bar Float)) : Prop where
  apart : bars.Pairwise fun a b => a.date ≠ b.date
  wanted : ∀ b ∈ bars, w.start ≤ b.date ∧ b.date ≤ w.last
  traded : ∀ i d, place ≤ i → Trades offset c stamps i d → w.start ≤ d → d ≤ w.last →
    ∃ b ∈ bars, b.date = d
  closing : ∀ b ∈ bars, ∃ i, place ≤ i ∧ Closes offset c stamps i b

variable {w : Wanted} {offset : Int} {c : Columns} {stamps : List Int} {place : Nat}
  {bars : List (Bar Float)}

theorem Trades.unique {d d' : Date} (h : Trades offset c stamps place d)
    (h' : Trades offset c stamps place d') : d = d' := by
  obtain ⟨-, t, ht, hd⟩ := h
  obtain ⟨-, t', ht', hd'⟩ := h'
  rw [ht] at ht'
  cases ht'
  exact hd.unique hd'

theorem Kept.nil (h : stamps.length ≤ place) : Kept w offset c stamps place [] where
  apart := .nil
  wanted := by simp
  traded i d hi htrades := by
    obtain ⟨-, t, ht, -⟩ := htrades
    rw [List.getElem?_eq_none (by omega)] at ht
    cases ht
  closing := by simp

-- A row whose day is there already, or is not wanted, changes nothing.
theorem Kept.same (h : Kept w offset c stamps (place + 1) bars)
    (hrow : ∀ d, Trades offset c stamps place d → w.start ≤ d → d ≤ w.last →
      ∃ b ∈ bars, b.date = d) : Kept w offset c stamps place bars where
  apart := h.apart
  wanted := h.wanted
  traded i d hi htrades hfirst hlast := by
    obtain rfl | hlt := Nat.eq_or_lt_of_le hi
    · exact hrow d htrades hfirst hlast
    · exact h.traded i d hlt htrades hfirst hlast
  closing b hb := by
    obtain ⟨i, hi, hcloses⟩ := h.closing b hb
    exact ⟨i, by omega, hcloses⟩

-- A bar is kept if its day does not come again.
theorem Kept.push {b : Bar Float} (h : Kept w offset c stamps (place + 1) bars)
    (htrades : Trades offset c stamps place b.date) (hquotes : Quotes c place b)
    (hwanted : w.start ≤ b.date ∧ b.date ≤ w.last) (hnew : ∀ b' ∈ bars, b'.date ≠ b.date) :
    Kept w offset c stamps place (b :: bars) where
  apart := List.pairwise_cons.2 ⟨fun b' hb' => (hnew b' hb').symm, h.apart⟩
  wanted := List.forall_mem_cons.2 ⟨hwanted, h.wanted⟩
  traded i d hi htrades' hfirst hlast := by
    obtain rfl | hlt := Nat.eq_or_lt_of_le hi
    · exact ⟨b, by simp, htrades.unique htrades'⟩
    · obtain ⟨b', hb', hdate⟩ := h.traded i d hlt htrades' hfirst hlast
      exact ⟨b', List.mem_cons_of_mem _ hb', hdate⟩
  closing := by
    refine List.forall_mem_cons.2 ⟨⟨place, Nat.le_refl _, htrades, hquotes, ?_⟩, fun b' hb' => ?_⟩
    · intro later hlater htrades'
      obtain ⟨b', hb', hdate⟩ := h.traded later _ hlater htrades' hwanted.1 hwanted.2
      exact hnew b' hb' hdate
    · obtain ⟨i, hi, hcloses⟩ := h.closing b' hb'
      exact ⟨i, by omega, hcloses⟩

-- One row more in front.
theorem Kept.step {t : Int} {r : Option (Bar Float)} {rest : List (Bar Float)}
    (h : Kept w offset c stamps (place + 1) (keepLast rest)) (ht : stamps[place]? = some t)
    (hrow : Row w offset c place t r) :
    Kept w offset c stamps place (keepLast (r.toList ++ rest)) := by
  cases hrow with
  | incomplete hcomplete => exact h.same fun d htrades => absurd htrades.1 hcomplete
  | unwanted hcomplete hday hwanted =>
    refine h.same fun d htrades hfirst hlast => ?_
    obtain rfl := htrades.unique ⟨hcomplete, t, ht, hday⟩
    exact absurd ⟨hfirst, hlast⟩ hwanted
  | @bar b hcomplete hday hwanted hquotes =>
    have htrades : Trades offset c stamps place b.date := ⟨hcomplete, t, ht, hday⟩
    change Kept w offset c stamps place
      (if (keepLast rest).any (·.date == b.date) then keepLast rest else b :: keepLast rest)
    by_cases hagain : ∃ b' ∈ keepLast rest, b'.date = b.date
    · rw [if_pos (by simpa using hagain)]
      refine h.same fun d htrades' _ _ => ?_
      rwa [htrades'.unique htrades]
    · rw [if_neg (by simpa using hagain)]
      exact h.push htrades hquotes hwanted fun b' hb' hdate => hagain ⟨b', hb', hdate⟩

-- All the rows from a place on are read and the last one of each day is kept, or one of them is
-- refused.
theorem barsFrom_cases (hc : c.Plain) (w : Wanted) (offset : Int) (stamps : List Int) (place : Nat)
    {due : List Int} (hdue : stamps.drop place = due) :
    ReadableFrom w offset c stamps place ∧
        (∃ bars, barsFrom w offset c place (due.map .int) = .ok bars ∧
          Kept w offset c stamps place (keepLast bars)) ∨
      ¬ ReadableFrom w offset c stamps place ∧
        ∃ e, barsFrom w offset c place (due.map .int) = .error e ∧ ¬ e.IsSource := by
  induction due generalizing place with
  | nil =>
    have hlength : stamps.length ≤ place := List.drop_eq_nil_iff.1 hdue
    refine .inl ⟨fun i t hi ht => ?_, [], rfl, .nil hlength⟩
    rw [List.getElem?_eq_none (by omega)] at ht
    cases ht
  | cons t due ih =>
    have ht : stamps[place]? = some t := by
      rw [← List.head?_drop, hdue]
      rfl
    have hrest : stamps.drop (place + 1) = due := by
      rw [← List.drop_drop, hdue]
      rfl
    rw [List.map_cons, barsFrom]
    obtain ⟨hreadable, r, hr, hrow⟩ | ⟨hreadable, e, he, hsource⟩ := bar?_cases hc w offset place t
    · rw [hr]
      obtain ⟨hreadable', bars, hbars, hkept⟩ | ⟨hreadable', e, he, hsource⟩ := ih (place + 1) hrest
      · refine .inl ⟨fun i t' hi ht' => ?_, r.toList ++ bars, ?_, hkept.step ht hrow⟩
        · obtain rfl | hlt := Nat.eq_or_lt_of_le hi
          · rw [ht] at ht'
            cases ht'
            exact hreadable
          · exact hreadable' i t' hlt ht'
        · rw [hbars]
          rfl
      · refine .inr ⟨fun h => hreadable' fun i t' hi => h i t' (by omega), e, ?_, hsource⟩
        rw [he]
        rfl
    · refine .inr ⟨fun h => hreadable (h place t (Nat.le_refl _) ht), e, ?_, hsource⟩
      rw [he]
      rfl

-- Bars in the order of their dates, one for each wanted day on which a row trades, with the numbers
-- of the last such row.
structure IsDaily (w : Wanted) (offset : Int) (c : Columns) (stamps : List Int)
    (bars : List (Bar Float)) : Prop where
  increasing : bars.Pairwise fun a b => a.date < b.date
  wanted : ∀ b ∈ bars, w.start ≤ b.date ∧ b.date ≤ w.last
  traded : ∀ d, (∃ b ∈ bars, b.date = d) ↔
    (w.start ≤ d ∧ d ≤ w.last) ∧ ∃ place, Trades offset c stamps place d
  closing : ∀ b ∈ bars, ∃ place, Closes offset c stamps place b

theorem sortBars_increasing (h : bars.Pairwise fun a b => a.date ≠ b.date) :
    (sortBars bars).Pairwise fun a b => a.date < b.date := by
  have hperm : (sortBars bars).Perm bars := List.mergeSort_perm _ _
  have happart : (sortBars bars).Pairwise fun a b => a.date ≠ b.date :=
    hperm.symm.pairwise h Ne.symm
  exact ((sortBars_pairwise bars).and happart).imp fun h => lt_of_le_of_ne h.1 h.2

theorem Kept.daily (h : Kept w offset c stamps 0 (keepLast bars)) :
    IsDaily w offset c stamps (daily bars) := by
  have hmem (b : Bar Float) : b ∈ sortBars (keepLast bars) ↔ b ∈ keepLast bars :=
    (List.mergeSort_perm _ _).mem_iff
  rw [daily_eq]
  constructor
  case increasing => exact sortBars_increasing h.apart
  case wanted => exact fun b hb => h.wanted b ((hmem b).1 hb)
  case traded =>
    intro d
    constructor
    · rintro ⟨b, hb, rfl⟩
      obtain ⟨place, -, htrades, -⟩ := h.closing b ((hmem b).1 hb)
      exact ⟨h.wanted b ((hmem b).1 hb), place, htrades⟩
    · rintro ⟨⟨hfirst, hlast⟩, place, htrades⟩
      obtain ⟨b, hb, hdate⟩ := h.traded place d (Nat.zero_le _) htrades hfirst hlast
      exact ⟨b, (hmem b).2 hb, hdate⟩
  case closing =>
    intro b hb
    obtain ⟨place, -, hcloses⟩ := h.closing b ((hmem b).1 hb)
    exact ⟨place, hcloses⟩

-- A result with an offset and times in whole seconds and with columns of numbers and gaps. An
-- offset that is absent or null is zero, and a list that is absent or null is empty.
structure Plain (result : Json) (offset : Int) (stamps : List Int) : Prop where
  object : IsObject result
  settings : IsObject (settingsOf result)
  offset : offsetOf result = .int offset
  indicators : IsObject (memberOrEmptyOf "indicators" result)
  places : HasPlaces 0 (quotesOf result)
  quotes : IsObject (elementOf 0 (quotesOf result))
  stamps : stampsOf result = .list (stamps.map .int)
  columns : (columnsOf result).Plain

theorem member_eq {j : Json} (h : IsObject j) (name : String) :
    member j name = .ok (memberOf name j) := by
  cases j with
  | object members => rfl
  | _ => cases h

theorem memberOrEmpty_eq {j : Json} (h : IsObject j) (name : String) :
    memberOrEmpty j name = .ok (memberOrEmptyOf name j) := by
  cases j with
  | object members => rfl
  | _ => cases h

theorem resultBars_eq {result : Json} (h : Plain result offset stamps) (w : Wanted) :
    resultBars w result = daily <$> barsFrom w offset (columnsOf result) 0 (stamps.map .int) := by
  have hbind {β γ : Type} (x : β) (f : β → Except Error γ) : (Except.ok x >>= f) = f x := rfl
  have hoffset : toInt (offsetOf result) = .ok offset := by
    rw [h.offset]
    rfl
  have hstamps : elements (stampsOf result) = .ok (stamps.map .int) := by
    rw [h.stamps]
    rfl
  unfold resultBars
  simp only [bind_assoc, pure_bind]
  rw [member_eq h.object, hbind]
  change (member (settingsOf result) "gmtoffset" >>= _) = _
  rw [member_eq h.settings, hbind]
  change (toInt (offsetOf result) >>= _) = _
  rw [hoffset, hbind, member_eq h.object, hbind, memberOrEmpty_eq h.object, hbind,
    member_eq h.indicators, hbind]
  change (element (quotesOf result) 0 >>= _) = _
  rw [element_eq h.places, hbind]
  simp only [member_eq h.quotes, hbind]
  change (elements (stampsOf result) >>= _) = _
  rw [hstamps, hbind]
  exact (map_eq_pure_bind _ _).symm

def resultsOf (data : Json) : Json :=
  memberOf "result" (memberOrEmptyOf "chart" data)

-- A chart that does not say that something is wrong.
structure ErrorFree (data : Json) : Prop where
  object : IsObject data
  chart : IsObject (memberOrEmptyOf "chart" data)
  error : isGiven (memberOf "error" (memberOrEmptyOf "chart" data)) = false

-- The rows of a chart: those of its first result, or none if it has no result.
inductive Holds (data : Json) : Int → Columns → List Int → Prop
  | nothing {offset : Int} {c : Columns} (h : isGiven (resultsOf data) = false) :
    Holds data offset c []
  | rows {offset : Int} {stamps : List Int} (hgiven : isGiven (resultsOf data) = true)
      (hplaces : HasPlaces 0 (resultsOf data))
      (h : Plain (elementOf 0 (resultsOf data)) offset stamps) :
    Holds data offset (columnsOf (elementOf 0 (resultsOf data))) stamps

-- A chart that holds some rows.
def chartOf (offset : Int) (stamps : List Int) (c : Columns) : Json :=
  .object [("chart", .object [("error", .null), ("result", .list [.object [
    ("meta", .object [("gmtoffset", .int offset)]),
    ("timestamp", .list (stamps.map .int)),
    ("indicators", .object [("quote", .list [.object [("open", c.opening), ("high", c.high),
      ("low", c.low), ("close", c.close), ("volume", c.volume)]])])]])])]

theorem chartOf_errorFree (offset : Int) (stamps : List Int) (c : Columns) :
    ErrorFree (chartOf offset stamps c) :=
  ⟨trivial, trivial, rfl⟩

theorem orElse_list (items : List Json) : orElse (.list items) (.list []) = .list items := by
  cases items <;> rfl

theorem IsColumn.orElse_eq {j : Json} (h : IsColumn j) : orElse j (.list []) = j := by
  obtain ⟨cells, rfl, -⟩ := h
  exact orElse_list cells

theorem chartOf_holds (offset : Int) (stamps : List Int) (hc : c.Plain) :
    Holds (chartOf offset stamps c) offset c stamps := by
  have hoffset : orElse (.int offset) (.int 0) = .int offset := by
    by_cases h : offset = 0
    · rw [h]
      rfl
    · exact if_pos (by simpa [isGiven] using h)
  have hcolumns : columnsOf (elementOf 0 (resultsOf (chartOf offset stamps c))) = c := by
    obtain ⟨hopening, hhigh, hlow, hclose, hvolume⟩ := plain_iff.1 hc
    change Columns.mk (orElse c.opening (.list [])) (orElse c.high (.list []))
      (orElse c.low (.list [])) (orElse c.close (.list [])) (orElse c.volume (.list [])) = c
    rw [hopening.orElse_eq, hhigh.orElse_eq, hlow.orElse_eq, hclose.orElse_eq, hvolume.orElse_eq]
  have hplain : Plain (elementOf 0 (resultsOf (chartOf offset stamps c))) offset stamps :=
    ⟨trivial, trivial, hoffset, trivial, trivial, trivial, orElse_list _, hcolumns.symm ▸ hc⟩
  have hholds := @Holds.rows (chartOf offset stamps c) _ _ rfl trivial hplain
  rwa [hcolumns] at hholds

theorem bars_of_errorFree {data : Json} (h : ErrorFree data) (w : Wanted) :
    Response.bars w data = (do
      if !isGiven (resultsOf data) then .error (.source (.noData w.code w.exchange))
      match ← resultBars w (← element (resultsOf data) 0) with
      | [] => .error (.source (.noData w.code w.exchange))
      | bars => return bars) := by
  unfold Response.bars
  rw [memberOrEmpty_eq h.object]
  change (member (memberOrEmptyOf "chart" data) "error" >>= _) = _
  rw [member_eq h.chart]
  refine (if_neg (by rw [h.error]; decide)).trans ?_
  rw [member_eq h.chart]
  rfl

-- What a readable chart comes to: its daily bars, or word that it has none.
inductive Outcome (w : Wanted) (offset : Int) (c : Columns) (stamps : List Int) :
    Except Error (List (Bar Float)) → Prop
  | none (h : ∀ place d, Trades offset c stamps place d → ¬ (w.start ≤ d ∧ d ≤ w.last)) :
    Outcome w offset c stamps (.error (.source (.noData w.code w.exchange)))
  | bars {bars : List (Bar Float)} (hsome : bars ≠ []) (h : IsDaily w offset c stamps bars) :
    Outcome w offset c stamps (.ok bars)

theorem IsDaily.outcome (h : IsDaily w offset c stamps bars) :
    Outcome w offset c stamps (do
      match ← (.ok bars : Except Error (List (Bar Float))) with
      | [] => .error (.source (.noData w.code w.exchange))
      | bars => return bars) := by
  cases bars with
  | nil =>
    refine .none fun place d htrades hwanted => ?_
    obtain ⟨b, hb, -⟩ := (h.traded d).2 ⟨hwanted, place, htrades⟩
    cases hb
  | cons b bars => exact .bars (by simp) h

-- A wanted day is answered with a bar if a row trades on it.
theorem Outcome.date_iff {outcome : Except Error (List (Bar Float))} {d : Date}
    (h : Outcome w offset c stamps outcome) (hwanted : w.start ≤ d ∧ d ≤ w.last) :
    (∃ bars, outcome = .ok bars ∧ ∃ b ∈ bars, b.date = d) ↔
      ∃ place, Trades offset c stamps place d := by
  cases h with
  | none h =>
    refine iff_of_false ?_ fun ⟨place, htrades⟩ => h place d htrades hwanted
    rintro ⟨bars, hbars, -⟩
    cases hbars
  | @bars bars _ hdaily =>
    constructor
    · rintro ⟨_, hbars, hdate⟩
      cases hbars
      exact ((hdaily.traded d).1 hdate).2
    · exact fun htrades => ⟨bars, rfl, (hdaily.traded d).2 ⟨hwanted, htrades⟩⟩

-- Without times there is nothing to answer with.
theorem Outcome.eq_noData {outcome : Except Error (List (Bar Float))}
    (h : Outcome w offset c [] outcome) :
    outcome = .error (.source (.noData w.code w.exchange)) := by
  cases h with
  | none => rfl
  | @bars bars hsome hdaily =>
    obtain ⟨b, _, rfl⟩ := List.exists_cons_of_ne_nil hsome
    obtain ⟨place, ⟨-, t, ht, -⟩, -⟩ := hdaily.closing b (by simp)
    cases ht

theorem bars_cases {data : Json} (hfree : ErrorFree data) (hholds : Holds data offset c stamps)
    (w : Wanted) :
    ReadableFrom w offset c stamps 0 ∧ Outcome w offset c stamps (Response.bars w data) ∨
      ¬ ReadableFrom w offset c stamps 0 ∧
        ∃ e, Response.bars w data = .error e ∧ ¬ e.IsSource := by
  cases hholds with
  | nothing hnothing =>
    have hnone (place : Nat) : ([] : List Int)[place]? = none := rfl
    refine .inl ⟨fun i t _ ht => ?_, ?_⟩
    · rw [hnone] at ht
      cases ht
    · rw [bars_of_errorFree hfree, hnothing]
      refine .none fun place d htrades => ?_
      obtain ⟨-, t, ht, -⟩ := htrades
      rw [hnone] at ht
      cases ht
  | rows hgiven hplaces h =>
    have hread : Response.bars w data = (do
        match ← daily <$> barsFrom w offset (columnsOf (elementOf 0 (resultsOf data))) 0
          (stamps.map .int) with
        | [] => .error (.source (.noData w.code w.exchange))
        | bars => return bars) := by
      rw [bars_of_errorFree hfree, hgiven, element_eq hplaces, ← resultBars_eq h]
      rfl
    rw [hread]
    obtain ⟨hreadable, bars, hbars, hkept⟩ | ⟨hreadable, e, he, hsource⟩ :=
      barsFrom_cases h.columns w offset stamps 0 List.drop_zero
    · refine .inl ⟨hreadable, ?_⟩
      rw [hbars]
      exact hkept.daily.outcome
    · refine .inr ⟨hreadable, e, ?_, hsource⟩
      rw [he]
      rfl

end Response

-- The parameters of a request for the days up to the one in front of `behind`.
def query (interval : String) (start behind : Date) : Parameters :=
  [("period1", .int start.epochSeconds), ("period2", .int behind.epochSeconds),
    ("interval", .text interval), ("includePrePost", .text "false"), ("events", .text "")]

-- A fetch over dates in order makes one request, and reads the chart that it is answered with.
theorem fetchDays_eq {m : Type → Type} [Monad m] [LawfulMonad m] {charts : Charts m}
    {ticker interval code exchange : String} {start last behind : Date} {data : Json}
    (hdates : start ≤ last) (hlast : last.next? = some behind)
    (hasked : charts ticker (query interval start behind) = pure data) :
    fetchDays charts ticker interval code exchange start last =
      ExceptT.mk (pure (Response.bars (wanted ticker code exchange start last) data)) := by
  unfold fetchDays
  rw [if_neg (not_lt.2 hdates), hlast]
  dsimp only
  change (charts ticker (query interval start behind) >>= _) = _
  rw [hasked, pure_bind]
  rfl

open Response in
-- What is fetched for a chart without an error, whose times are whole seconds and whose columns
-- hold numbers and gaps: bars in the order of their dates, one for each wanted day on which a row
-- with all its prices falls, each with the numbers of the last such row; or word that there are
-- none. A chart with a row of prices beyond the calendar, or on a wanted day with numbers beyond
-- the doubles, is refused.
theorem fetched_bars_are_daily {m : Type → Type} [Monad m] [LawfulMonad m] {charts : Charts m}
    {ticker interval code exchange : String} {start last behind : Date} {data : Json}
    {offset : Int} {c : Columns} {stamps : List Int} (hdates : start ≤ last)
    (hlast : last.next? = some behind)
    (hasked : charts ticker (query interval start behind) = pure data) (hfree : ErrorFree data)
    (hholds : Holds data offset c stamps) :
    ∃ outcome, fetchDays charts ticker interval code exchange start last =
        ExceptT.mk (pure outcome) ∧
      (ReadableFrom (wanted ticker code exchange start last) offset c stamps 0 →
        Outcome (wanted ticker code exchange start last) offset c stamps outcome) ∧
      (¬ ReadableFrom (wanted ticker code exchange start last) offset c stamps 0 →
        ∃ e, outcome = .error e ∧ ¬ e.IsSource) := by
  refine ⟨_, fetchDays_eq hdates hlast hasked, ?_⟩
  obtain ⟨hreadable, hanswer⟩ | ⟨hreadable, hrefused⟩ :=
    bars_cases hfree hholds (wanted ticker code exchange start last)
  · exact ⟨fun _ => hanswer, fun h => absurd hreadable h⟩
  · exact ⟨fun h => absurd h hreadable, fun _ => hrefused⟩

section Examples

open Response

-- Times of an exchange that is eleven hours ahead, two of them on one day.
def sydneyTimes : List Int :=
  [1578006000, 1577919600, 1578009600, 1578092400]

-- Prices for these times, of which one is missing, and volumes for the first of them.
def sydneyColumns : Columns where
  opening := .list [.int 1, .int 2, .int 3, .null, .int 5]
  high := .list [.int 2, .real 3.5, .int 4, .int 5]
  low := .list [.int 1, .int 1, .int 2, .int 3]
  close := .list [.int 2, .int 2, .int 3, .int 4]
  volume := .list [.int 100, .null]

theorem sydneyColumns_plain : sydneyColumns.Plain := by
  refine plain_iff.2 ⟨⟨_, rfl, ?_⟩, ⟨_, rfl, ?_⟩, ⟨_, rfl, ?_⟩, ⟨_, rfl, ?_⟩, ⟨_, rfl, ?_⟩⟩ <;>
    simp [IsCell]

-- What is wanted of the examples.
def inJanuary : Wanted :=
  wanted "BHP.AX" "BHP" "ASX" (january 1 (by decide)) (january 31 (by decide))

theorem fetched_bars_are_daily_sydney :
    january 1 (by decide) ≤ january 31 (by decide) ∧
    Date.next? (january 31 (by decide)) = some ⟨2020, 2, 1, by decide, by decide, by decide⟩ ∧
    ErrorFree (chartOf 39600 sydneyTimes sydneyColumns) ∧
    Holds (chartOf 39600 sydneyTimes sydneyColumns) 39600 sydneyColumns sydneyTimes ∧
    ReadableFrom inJanuary 39600 sydneyColumns sydneyTimes 0 ∧
    ∃ bars, (fetchDays (fun _ _ => pure (chartOf 39600 sydneyTimes sydneyColumns)) "BHP.AX" "1d"
        "BHP" "ASX" (january 1 (by decide)) (january 31 (by decide)) : ExceptT Error Id _) =
          ExceptT.mk (pure (.ok bars)) ∧
      IsDaily inJanuary 39600 sydneyColumns sydneyTimes bars := by
  have hdates : january 1 (by decide) ≤ january 31 (by decide) := by decide
  have hnext : Date.next? (january 31 (by decide)) =
      some ⟨2020, 2, 1, by decide, by decide, by decide⟩ := by decide
  have hfree := chartOf_errorFree 39600 sydneyTimes sydneyColumns
  have hholds := chartOf_holds 39600 sydneyTimes sydneyColumns_plain
  have hread : (barsFrom inJanuary 39600 sydneyColumns 0 (sydneyTimes.map .int)).isOk = true := by
    decide
  have hreadable : ReadableFrom inJanuary 39600 sydneyColumns sydneyTimes 0 := by
    obtain ⟨hreadable, -⟩ | ⟨-, e, he, -⟩ :=
      barsFrom_cases sydneyColumns_plain inJanuary 39600 sydneyTimes 0 List.drop_zero
    · exact hreadable
    · rw [he] at hread
      cases hread
  obtain ⟨outcome, hrun, hanswer, -⟩ :=
    @fetched_bars_are_daily Id _ _ (fun _ _ => pure (chartOf 39600 sydneyTimes sydneyColumns))
      "BHP.AX" "1d" "BHP" "ASX" _ _ _ _ _ _ _ hdates hnext rfl hfree hholds
  refine ⟨hdates, hnext, hfree, hholds, hreadable, ?_⟩
  cases hanswer hreadable with
  | none h =>
    have htrades : Trades 39600 sydneyColumns sydneyTimes 1 (january 2 (by decide)) := by
      refine ⟨?_, 1577919600, rfl, by decide⟩
      simp [Complete, Columns.prices, sydneyColumns, elementOf]
    exact absurd (by decide) (h 1 _ htrades)
  | bars _ hdaily => exact ⟨_, hrun, hdaily⟩

-- The columns of one row, whose prices are all alike and whose volume is missing.
def oneRowColumns (price : Int) : Columns where
  opening := .list [.int price]
  high := .list [.int price]
  low := .list [.int price]
  close := .list [.int price]
  volume := .list []

theorem oneRowColumns_plain (price : Int) : (oneRowColumns price).Plain := by
  refine plain_iff.2 ⟨⟨_, rfl, ?_⟩, ⟨_, rfl, ?_⟩, ⟨_, rfl, ?_⟩, ⟨_, rfl, ?_⟩, ⟨_, rfl, ?_⟩⟩ <;>
    simp [IsCell]

theorem oneRow_trades (price : Int) :
    Trades 39600 (oneRowColumns price) [1577919600] 0 (january 2 (by decide)) := by
  refine ⟨?_, 1577919600, rfl, by decide⟩
  simp [Complete, Columns.prices, oneRowColumns, elementOf]

-- A price beyond the doubles.
theorem oneRow_refused {price : Int} (h : 2 ^ 1024 ≤ price.natAbs + 2 ^ 970) :
    ¬ ReadableFrom inJanuary 39600 (oneRowColumns price) [1577919600] 0 := by
  intro hreadable
  have hrow := hreadable 0 1577919600 (Nat.le_refl _) rfl
  obtain ⟨hcomplete, t, ht, hday⟩ := oneRow_trades price
  have hprice := hrow.numbers hcomplete (january 2 (by decide)) (by decide) (by decide)
    (by decide) (.int price) (List.mem_cons_self)
  exact Nat.not_lt.2 h hprice

-- A time of the calendar whose local time is not, a price beyond the doubles, and days up to the
-- end of the calendar: all of them are refused.
theorem fetches_are_refused :
    (Holds (chartOf 3600 [253402300799] (oneRowColumns 1)) 3600 (oneRowColumns 1) [253402300799] ∧
      lastDate.Covers 253402300799 ∧
      (fetchDays (fun _ _ => pure (chartOf 3600 [253402300799] (oneRowColumns 1))) "BHP.AX" "1d"
          "BHP" "ASX" (january 1 (by decide)) (january 31 (by decide)) : ExceptT Error Id _) =
        throw (.flaw (.yearRange 10000))) ∧
    (Holds (chartOf 39600 [1577919600] (oneRowColumns (10 ^ 400))) 39600 (oneRowColumns (10 ^ 400))
        [1577919600] ∧
      Trades 39600 (oneRowColumns (10 ^ 400)) [1577919600] 0 (january 2 (by decide)) ∧
      ∃ e, (fetchDays (fun _ _ => pure (chartOf 39600 [1577919600] (oneRowColumns (10 ^ 400))))
          "BHP.AX" "1d" "BHP" "ASX" (january 1 (by decide)) (january 31 (by decide)) :
            ExceptT Error Id _) = throw e ∧ ¬ e.IsSource) ∧
    Holds (chartOf 39600 [1577919600] (oneRowColumns 1)) 39600 (oneRowColumns 1) [1577919600] ∧
      Trades 39600 (oneRowColumns 1) [1577919600] 0 (january 2 (by decide)) ∧
      (fetchDays (fun _ _ => pure (chartOf 39600 [1577919600] (oneRowColumns 1))) "BHP.AX" "1d"
          "BHP" "ASX" (january 1 (by decide)) lastDate : ExceptT Error Id _) =
        throw (.breakdown .overflow) := by
  have hholds (offset stamp price : Int) :=
    chartOf_holds offset [stamp] (oneRowColumns_plain price)
  have hnext : Date.next? (january 31 (by decide)) =
      some ⟨2020, 2, 1, by decide, by decide, by decide⟩ := by decide
  refine ⟨⟨hholds _ _ _, by decide, rfl⟩, ⟨hholds _ _ _, oneRow_trades _, ?_⟩,
    hholds _ _ _, oneRow_trades _, rfl⟩
  rw [fetchDays_eq (by decide) hnext rfl]
  obtain ⟨hreadable, -⟩ | ⟨-, e, he, hsource⟩ :=
    bars_cases (chartOf_errorFree _ _ _) (hholds 39600 1577919600 (10 ^ 400)) inJanuary
  · exact absurd hreadable (oneRow_refused (by decide +kernel))
  · exact ⟨e, congrArg _ he, hsource⟩

end Examples

end BarReplay.Yahoo
