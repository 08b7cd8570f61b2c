import BarReplay.Proofs.Yahoo.Daily

namespace BarReplay.Yahoo

open Response

-- Whether a request asks for a time.
def asks (parameters : Parameters) (t : Int) : Bool :=
  match parameters.lookup "period1", parameters.lookup "period2" with
  | some (.int first), some (.int behind) => first ≤ t && t < behind
  | _, _ => false

-- A time is kept if the day on which it falls at the exchange is wanted.
def Keeps (start last : Date) (offset t : Int) : Prop :=
  ∃ d : Date, d.Covers (t + offset) ∧ start ≤ d ∧ d ≤ last

section Times

variable {interval : String} {start last behind : Date} {offset t : Int}

theorem asks_query :
    asks (query interval start behind) t = true ↔
      start.epochSeconds ≤ t ∧ t < behind.epochSeconds := by
  change (decide (start.epochSeconds ≤ t) && decide (t < behind.epochSeconds)) = true ↔ _
  rw [Bool.and_eq_true, decide_eq_true_eq, decide_eq_true_eq]

theorem keeps_iff (hlast : last.next? = some behind) :
    Keeps start last offset t ↔
      start.epochSeconds ≤ t + offset ∧ t + offset < behind.epochSeconds := by
  rw [Date.epochSeconds_next hlast]
  constructor
  · rintro ⟨d, hd, hfirst, hlast⟩
    have hend := Date.epochSeconds_le hlast
    exact ⟨hd.le_iff.1 hfirst, by have := hd.2; omega⟩
  · rintro ⟨hfirst, hend⟩
    obtain ⟨d, hd⟩ := Date.exists_covers hfirst hend
    refine ⟨d, hd, hd.le_iff.2 hfirst, ?_⟩
    by_contra hlate
    have hnext := Date.ordinal_lt_ordinal (not_le.1 hlate)
    have hbegin := hd.1
    unfold Date.epochSeconds at hbegin hend
    omega

-- A time that is kept without being asked for falls on the first day, in front of its start in
-- UTC, or on the last day, behind its end in UTC.
theorem keeps_and_not_asks_iff (hdates : start ≤ last) (hlast : last.next? = some behind)
    (hoffset : -43200 ≤ offset ∧ offset ≤ 50400) :
    Keeps start last offset t ∧ ¬ asks (query interval start behind) t = true ↔
      start.Covers (t + offset) ∧ t < start.epochSeconds ∨
        last.Covers (t + offset) ∧ behind.epochSeconds ≤ t := by
  have hdays := Date.epochSeconds_le hdates
  have hend := Date.epochSeconds_next hlast
  rw [keeps_iff hlast, asks_query]
  unfold Date.Covers
  omega

-- All that is kept is asked for only where the local days are those of UTC.
theorem keeps_only_asked_iff (hdates : start ≤ last) (hlast : last.next? = some behind) :
    (∀ t, Keeps start last offset t → asks (query interval start behind) t = true) ↔ offset = 0 := by
  have hdays := Date.epochSeconds_le hdates
  have hend := Date.epochSeconds_next hlast
  simp only [keeps_iff hlast, asks_query]
  constructor
  · intro h
    have hfirst := h (start.epochSeconds - offset) (by omega)
    have hlast := h (behind.epochSeconds - offset - 1) (by omega)
    omega
  · rintro rfl
    simp

end Times

-- A row of a server.
structure Quote where
  stamp : Int
  opening : Option Float
  high : Option Float
  low : Option Float
  close : Option Float
  volume : Option Float

def Quote.IsComplete (q : Quote) : Prop :=
  q.opening ≠ none ∧ q.high ≠ none ∧ q.low ≠ none ∧ q.close ≠ none

def cell : Option Float → Json
  | none => .null
  | some x => .real x

def columnOf (part : Quote → Option Float) (quotes : List Quote) : Json :=
  .list (quotes.map fun q => cell (part q))

def quotedColumns (quotes : List Quote) : Columns where
  opening := columnOf (·.opening) quotes
  high := columnOf (·.high) quotes
  low := columnOf (·.low) quotes
  close := columnOf (·.close) quotes
  volume := columnOf (·.volume) quotes

-- A server answers with the rows whose times are asked for, and with all of these.
def serve (offset : Int) (quotes : List Quote) : Charts Id := fun _ parameters =>
  let found := quotes.filter fun q => asks parameters q.stamp
  pure (chartOf offset (found.map (·.stamp)) (quotedColumns found))

section Rows

variable {quotes : List Quote} {place : Nat} {q : Quote} {offset : Int} {d : Date} {w : Wanted}

theorem elementOf_columnOf (part : Quote → Option Float) (h : quotes[place]? = some q) :
    elementOf place (columnOf part quotes) = cell (part q) := by
  simp [elementOf, columnOf, h]

theorem cell_eq_null_iff {x : Option Float} : cell x = .null ↔ x = none := by
  cases x <;> simp [cell]

theorem complete_iff (h : quotes[place]? = some q) :
    Complete (quotedColumns quotes) place ↔ q.IsComplete := by
  simp only [Complete, Columns.prices, quotedColumns, List.forall_mem_cons, elementOf_columnOf _ h,
    ne_eq, cell_eq_null_iff, Quote.IsComplete]
  simp

theorem quotedColumns_plain (quotes : List Quote) : (quotedColumns quotes).Plain := by
  have hcolumn (part : Quote → Option Float) : IsColumn (columnOf part quotes) := by
    refine ⟨_, rfl, fun x hx => ?_⟩
    obtain ⟨q, -, rfl⟩ := List.mem_map.1 hx
    cases part q <;> trivial
  exact plain_iff.2 ⟨hcolumn _, hcolumn _, hcolumn _, hcolumn _, hcolumn _⟩

theorem exists_trades_iff :
    (∃ place, Trades offset (quotedColumns quotes) (quotes.map (·.stamp)) place d) ↔
      ∃ q ∈ quotes, q.IsComplete ∧ d.Covers (q.stamp + offset) := by
  constructor
  · rintro ⟨place, hcomplete, t, ht, hd⟩
    rw [List.getElem?_map, Option.map_eq_some_iff] at ht
    obtain ⟨q, hq, rfl⟩ := ht
    exact ⟨q, List.mem_of_getElem? hq, (complete_iff hq).1 hcomplete, hd⟩
  · rintro ⟨q, hq, hcomplete, hd⟩
    obtain ⟨place, hplace⟩ := List.mem_iff_getElem?.1 hq
    exact ⟨place, (complete_iff hplace).2 hcomplete, q.stamp, by simp [hplace], hd⟩

-- Doubles are never too large, so that only the times matter.
theorem quotes_readable (h : ∀ q ∈ quotes, ∃ d : Date, d.Covers (q.stamp + offset)) :
    ReadableFrom w offset (quotedColumns quotes) (quotes.map (·.stamp)) 0 := by
  intro place t _ ht
  rw [List.getElem?_map, Option.map_eq_some_iff] at ht
  obtain ⟨q, hq, rfl⟩ := ht
  refine ⟨fun _ => h q (List.mem_of_getElem? hq), fun hcomplete _ _ _ _ => ?_⟩
  obtain ⟨hopening, hhigh, hlow, hclose⟩ := (complete_iff hq).1 hcomplete
  have hprice {x : Option Float} (h : x ≠ none) : IsPrice (cell x) := by
    cases x with
    | none => exact absurd rfl h
    | some x => trivial
  have hvolume (x : Option Float) : IsPrice (orElse (cell x) (.int 0)) := by
    have hzero : IsPrice (.int 0) := by
      rw [← sound_toNumber, toNumber_zero]
      exact sound_ok _
    unfold orElse
    split
    · rename_i hgiven
      cases x with
      | none => cases hgiven
      | some x => trivial
    · exact hzero
  simp only [numbersOf, Columns.prices, quotedColumns, List.map_cons, List.map_nil,
    List.cons_append, List.nil_append, List.forall_mem_cons, elementOf_columnOf _ hq]
  exact ⟨hprice hopening, hprice hhigh, hprice hlow, hprice hclose, hvolume _,
    List.forall_mem_nil _⟩

end Rows

-- A request asks for the days of a range in UTC, and what comes back is kept by the days at the
-- exchange. A row that would be kept without being asked for is one of the first day or of the last
-- one, and there are times of such rows unless the exchange keeps UTC. A day of the range is lost
-- exactly if a server has no complete row of it that is asked for.
theorem days_are_lost_at_the_ends {interval ticker code exchange : String}
    {start last behind : Date} {offset : Int} (hdates : start ≤ last)
    (hlast : last.next? = some behind) (hoffset : -43200 ≤ offset ∧ offset ≤ 50400) :
    (∀ t, Keeps start last offset t ∧ ¬ asks (query interval start behind) t = true ↔
      start.Covers (t + offset) ∧ t < start.epochSeconds ∨
        last.Covers (t + offset) ∧ behind.epochSeconds ≤ t) ∧
    ((∀ t, Keeps start last offset t → asks (query interval start behind) t = true) ↔
      offset = 0) ∧
    ∀ quotes : List Quote, (∀ q ∈ quotes, ∃ d : Date, d.Covers (q.stamp + offset)) →
      ∃ outcome, fetchDays (serve offset quotes) ticker interval code exchange start last =
          ExceptT.mk (pure outcome) ∧
        ∀ d, start ≤ d → d ≤ last →
          ((∃ bars, outcome = .ok bars ∧ ∃ b ∈ bars, b.date = d) ↔
            ∃ q ∈ quotes, q.IsComplete ∧ d.Covers (q.stamp + offset) ∧
              asks (query interval start behind) q.stamp = true) := by
  refine ⟨fun t => keeps_and_not_asks_iff hdates hlast hoffset,
    keeps_only_asked_iff hdates hlast, fun quotes hquotes => ?_⟩
  obtain ⟨found, hfound⟩ : ∃ found,
      found = quotes.filter fun q => asks (query interval start behind) q.stamp := ⟨_, rfl⟩
  have hasked : serve offset quotes ticker (query interval start behind) =
      pure (chartOf offset (found.map (·.stamp)) (quotedColumns found)) := by
    rw [hfound]
    rfl
  refine ⟨_, fetchDays_eq hdates hlast hasked, fun d hfirst hend => ?_⟩
  have hmem (q : Quote) : q ∈ found ↔
      q ∈ quotes ∧ asks (query interval start behind) q.stamp = true := by
    rw [hfound, List.mem_filter]
  obtain ⟨-, hanswer⟩ | ⟨hreadable, -⟩ :=
    bars_cases (chartOf_errorFree _ _ _) (chartOf_holds offset _ (quotedColumns_plain found))
      (wanted ticker code exchange start last)
  · have htrades : (∃ bars, Response.bars (wanted ticker code exchange start last)
          (chartOf offset (found.map (·.stamp)) (quotedColumns found)) = .ok bars ∧
            ∃ b ∈ bars, b.date = d) ↔
        ∃ place, Trades offset (quotedColumns found) (found.map (·.stamp)) place d :=
      hanswer.date_iff ⟨hfirst, hend⟩
    rw [htrades, exists_trades_iff]
    constructor
    · rintro ⟨q, hq, hcomplete, hd⟩
      obtain ⟨hq, hasks⟩ := (hmem q).1 hq
      exact ⟨q, hq, hcomplete, hd, hasks⟩
    · rintro ⟨q, hq, hcomplete, hd, hasks⟩
      exact ⟨q, (hmem q).2 ⟨hq, hasks⟩, hcomplete, hd⟩
  · exact absurd (quotes_readable fun q hq => hquotes q ((hmem q).1 hq).1) hreadable

-- Two rows of an exchange that is eleven hours ahead: of the second of January and of the third.
def secondOfJanuary : Quote := ⟨1577919600, some 1, some 1, some 1, some 1, none⟩

def thirdOfJanuary : Quote := ⟨1578006000, some 1, some 1, some 1, some 1, none⟩

theorem days_are_lost_at_the_ends_sydney :
    january 2 (by decide) ≤ january 31 (by decide) ∧
    Date.next? (january 31 (by decide)) = some ⟨2020, 2, 1, by decide, by decide, by decide⟩ ∧
    (-43200 ≤ (39600 : Int) ∧ (39600 : Int) ≤ 50400) ∧
    (∀ q ∈ [secondOfJanuary, thirdOfJanuary], ∃ d : Date, d.Covers (q.stamp + 39600)) ∧
    ∃ outcome, fetchDays (serve 39600 [secondOfJanuary, thirdOfJanuary]) "BHP.AX" "1d" "BHP" "ASX"
        (january 2 (by decide)) (january 31 (by decide)) = ExceptT.mk (pure outcome) ∧
      (¬ ∃ bars, outcome = .ok bars ∧ ∃ b ∈ bars, b.date = january 2 (by decide)) ∧
      ∃ bars, outcome = .ok bars ∧ ∃ b ∈ bars, b.date = january 3 (by decide) := by
  have hdates : january 2 (by decide) ≤ january 31 (by decide) := by decide
  have hlast : Date.next? (january 31 (by decide)) =
      some ⟨2020, 2, 1, by decide, by decide, by decide⟩ := by decide
  have hoffset : -43200 ≤ (39600 : Int) ∧ (39600 : Int) ≤ 50400 := by decide
  have hquotes : ∀ q ∈ [secondOfJanuary, thirdOfJanuary], ∃ d : Date, d.Covers (q.stamp + 39600) := by
    simp only [List.forall_mem_cons]
    exact ⟨⟨january 2 (by decide), by decide⟩, ⟨january 3 (by decide), by decide⟩,
      List.forall_mem_nil _⟩
  refine ⟨hdates, hlast, hoffset, hquotes, ?_⟩
  obtain ⟨-, -, hserver⟩ :=
    @days_are_lost_at_the_ends "1d" "BHP.AX" "BHP" "ASX" _ _ _ 39600 hdates hlast hoffset
  obtain ⟨outcome, hrun, hday⟩ := hserver _ hquotes
  refine ⟨outcome, hrun, ?_, ?_⟩
  · rw [hday _ (by decide) (by decide)]
    rintro ⟨q, hq, -, hd, hasks⟩
    simp only [List.mem_cons, List.not_mem_nil, or_false] at hq
    rcases hq with rfl | rfl
    · exact absurd hasks (by decide)
    · exact absurd hd (by decide)
  · rw [hday _ (by decide) (by decide)]
    exact ⟨thirdOfJanuary, by simp, by simp [Quote.IsComplete, thirdOfJanuary], by decide,
      by decide⟩

-- A row of the first day that is kept and not asked for, and a fetch that loses the day with it.
theorem first_day_is_lost :
    Keeps (january 2 (by decide)) (january 31 (by decide)) 39600 1577919600 ∧
    (∀ behind, Date.next? (january 31 (by decide)) = some behind →
      asks (query "1d" (january 2 (by decide)) behind) 1577919600 = false) ∧
    fetchDays (serve 39600 [secondOfJanuary]) "BHP.AX" "1d" "BHP" "ASX" (january 2 (by decide))
        (january 31 (by decide)) = throw (.source (.noData "BHP" "ASX")) := by
  have hasks (behind : Date) :
      asks (query "1d" (january 2 (by decide)) behind) 1577919600 = false := by
    have hfirst : Date.epochSeconds (january 2 (by decide)) = 1577923200 := by decide
    rw [← Bool.not_eq_true, asks_query, hfirst]
    omega
  have hasked (behind : Date) :
      serve 39600 [secondOfJanuary] "BHP.AX" (query "1d" (january 2 (by decide)) behind) =
        pure (chartOf 39600 [] (quotedColumns [])) := by
    unfold serve
    rw [List.filter_cons_of_neg (by rw [secondOfJanuary, hasks]; decide)]
    rfl
  refine ⟨⟨january 2 (by decide), by decide, by decide, by decide⟩,
    fun behind _ => hasks behind, ?_⟩
  obtain ⟨behind, hlast⟩ : ∃ behind, Date.next? (january 31 (by decide)) = some behind :=
    ⟨⟨2020, 2, 1, by decide, by decide, by decide⟩, by decide⟩
  rw [fetchDays_eq (by decide) hlast (hasked behind)]
  obtain ⟨-, hanswer⟩ | ⟨hreadable, -⟩ :=
    bars_cases (chartOf_errorFree 39600 [] (quotedColumns []))
      (chartOf_holds 39600 [] (quotedColumns_plain []))
      (wanted "BHP.AX" "BHP" "ASX" (january 2 (by decide)) (january 31 (by decide)))
  · rw [hanswer.eq_noData]
    rfl
  · exact absurd (fun _ _ _ h => nomatch h) hreadable

end BarReplay.Yahoo
