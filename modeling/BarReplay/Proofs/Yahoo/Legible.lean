import BarReplay.Proofs.Calendar.Dates
import BarReplay.Proofs.Yahoo.Shape

namespace BarReplay.Yahoo.Response

-- The parts of a result that are read, with what stands in for them where they are not given.

def settingsOf (result : Json) : Json :=
  orElse (memberOf "meta" result) (.object [])

def offsetOf (result : Json) : Json :=
  orElse (memberOf "gmtoffset" (settingsOf result)) (.int 0)

def stampsOf (result : Json) : Json :=
  orElse (memberOf "timestamp" result) (.list [])

def quotesOf (result : Json) : Json :=
  orElse (memberOf "quote" (memberOrEmptyOf "indicators" result)) (.list [.object []])

def columnsOf (result : Json) : Columns :=
  let column (name : String) : Json :=
    orElse (memberOf name (elementOf 0 (quotesOf result))) (.list [])
  ⟨column "open", column "high", column "low", column "close", column "volume"⟩

def Columns.prices (c : Columns) : List Json :=
  [c.opening, c.high, c.low, c.close]

-- A row has a bar only if no price is missing.
def Complete (c : Columns) (place : Nat) : Prop :=
  ∀ column ∈ c.prices, elementOf place column ≠ .null

-- Values that are read as numbers one after the other, up to the first that is none.
def LegibleNumbers : List Json → Prop
  | [] => True
  | j :: rest => IsPrice j ∧ ∀ x, toNumber j = .ok x → LegibleNumbers rest

-- A row of a chart: its columns are looked at, its time if no price is missing, and its numbers if
-- its day is wanted.
structure LegibleRow (w : Wanted) (offset : Int) (c : Columns) (place : Nat) (stamp : Json) :
    Prop where
  columns : ∀ column ∈ c.prices ++ [c.volume], HasPlaces place column
  time : Complete c place → IsTime offset stamp
  clock : Complete c place → ∀ second, localSecond offset stamp = .ok second → OnClock second
  numbers : Complete c place → ∀ second day, localSecond offset stamp = .ok second →
      dayOf second = .ok day → w.start ≤ day → day ≤ w.last →
      LegibleNumbers (c.prices.map (elementOf place) ++
        [orElse (elementOf place c.volume) (.int 0)])

-- The rows from a place on, up to the first that is refused.
def LegibleRows (w : Wanted) (offset : Int) (c : Columns) : Nat → List Json → Prop
  | _, [] => True
  | place, stamp :: rest => LegibleRow w offset c place stamp ∧
    ∀ b, bar? w offset c place stamp = .ok b → LegibleRows w offset c (place + 1) rest

-- A result whose parts are of the kinds that they are taken for. What comes after the offset is
-- only looked at if the offset is a whole number.
structure LegibleResult (w : Wanted) (result : Json) : Prop where
  object : IsObject result
  settings : IsObject (settingsOf result)
  offset : IsWhole (offsetOf result)
  indicators : ∀ offset, toInt (offsetOf result) = .ok offset →
    IsObject (memberOrEmptyOf "indicators" result)
  quotes : ∀ offset, toInt (offsetOf result) = .ok offset →
    HasPlaces 0 (quotesOf result) ∧ IsObject (elementOf 0 (quotesOf result))
  stamps : ∀ offset, toInt (offsetOf result) = .ok offset → IsSequence (stampsOf result)
  rows : ∀ offset, toInt (offsetOf result) = .ok offset →
    LegibleRows w offset (columnsOf result) 0 (elementsOf (stampsOf result))

-- A chart that says what is wrong, or that it has nothing, or whose first result is legible.
structure Legible (w : Wanted) (data : Json) : Prop where
  object : IsObject data
  chart : IsObject (memberOrEmptyOf "chart" data)
  results : isGiven (memberOf "error" (memberOrEmptyOf "chart" data)) = false →
    isGiven (memberOf "result" (memberOrEmptyOf "chart" data)) = true →
    HasPlaces 0 (memberOf "result" (memberOrEmptyOf "chart" data)) ∧
      LegibleResult w (elementOf 0 (memberOf "result" (memberOrEmptyOf "chart" data)))

variable {w : Wanted} {offset : Int} {c : Columns} {place : Nat} {stamp : Json}

theorem missing_iff :
    ([elementOf place c.opening, elementOf place c.high, elementOf place c.low,
      elementOf place c.close].any (· matches .null)) = true ↔ ¬ Complete c place := by
  have hnull (j : Json) : (j matches .null) = true ↔ j = .null := by
    cases j <;> simp
  simp only [List.any_eq_true, hnull, Complete, Columns.prices, List.mem_cons, List.not_mem_nil,
    or_false, ne_eq]
  grind

theorem sound_numbers {β : Type} {f : Float → Float → Float → Float → Float → β}
    {a b c d e : Json} :
    Sound (do return f (← toNumber a) (← toNumber b) (← toNumber c) (← toNumber d) (← toNumber e)) ↔
      LegibleNumbers [a, b, c, d, e] := by
  simp only [sound_bind, sound_toNumber, sound_pure, LegibleNumbers]

theorem hasPlaces_iff :
    (∀ column ∈ c.prices ++ [c.volume], HasPlaces place column) ↔
      HasPlaces place c.opening ∧ HasPlaces place c.high ∧ HasPlaces place c.low ∧
        HasPlaces place c.close ∧ HasPlaces place c.volume := by
  simp [Columns.prices]

theorem sound_bar? : Sound (bar? w offset c place stamp) ↔ LegibleRow w offset c place stamp := by
  have hunwanted (day : Date) :
      ¬ (day < w.start ∨ w.last < day) ↔ w.start ≤ day ∧ day ≤ w.last := by
    rw [not_or, not_lt, not_lt]
  unfold bar?
  simp only [sound_element_bind, sound_unless]
  constructor
  · rintro ⟨hopening, hhigh, hlow, hclose, hvolume, hrest⟩
    have hrow (hc : Complete c place) := hrest fun hmissing => missing_iff.1 hmissing hc
    simp only [sound_bind (r := localSecond offset stamp), sound_localSecond] at hrow
    have hday (hc : Complete c place) (second : Int)
        (hsecond : localSecond offset stamp = .ok second) := (hrow hc).2 second hsecond
    simp only [sound_bind (r := dayOf _), sound_dayOf, sound_unless, hunwanted] at hday
    constructor
    case columns => exact hasPlaces_iff.2 ⟨hopening, hhigh, hlow, hclose, hvolume⟩
    case time => exact fun hc => (hrow hc).1
    case clock => exact fun hc second hsecond => (hday hc second hsecond).1
    case numbers =>
      intro hc second day hsecond hday' hfirst hlast
      exact sound_numbers.1 ((hday hc second hsecond).2 day hday' ⟨hfirst, hlast⟩)
  · intro h
    obtain ⟨hopening, hhigh, hlow, hclose, hvolume⟩ := hasPlaces_iff.1 h.columns
    refine ⟨hopening, hhigh, hlow, hclose, hvolume, fun hgiven => ?_⟩
    have hc : Complete c place := by
      by_contra hc
      exact hgiven (missing_iff.2 hc)
    rw [sound_bind, sound_localSecond]
    refine ⟨h.time hc, fun second hsecond => ?_⟩
    rw [sound_bind, sound_dayOf]
    refine ⟨h.clock hc second hsecond, fun day hday => ?_⟩
    rw [sound_unless, hunwanted]
    exact fun hwanted => sound_numbers.2 (h.numbers hc second day hsecond hday hwanted.1 hwanted.2)

theorem sound_barsFrom {stamps : List Json} :
    Sound (barsFrom w offset c place stamps) ↔ LegibleRows w offset c place stamps := by
  induction stamps generalizing place with
  | nil => exact iff_of_true (sound_ok _) trivial
  | cons stamp rest ih =>
    rw [barsFrom, LegibleRows, sound_bind, sound_bar?]
    simp only [sound_map, ih]

theorem sound_resultBars {result : Json} :
    Sound (resultBars w result) ↔ LegibleResult w result := by
  unfold resultBars
  simp only [bind_assoc, pure_bind]
  rw [sound_member_bind, sound_member_bind, sound_bind, sound_toInt]
  simp only [sound_member_bind, sound_memberOrEmpty_bind, sound_element_bind, sound_elements_bind,
    sound_map, sound_barsFrom]
  constructor
  · rintro ⟨hresult, hsettings, hoffset, hrest⟩
    constructor
    case object => exact hresult
    case settings => exact hsettings
    case offset => exact hoffset
    all_goals
      intro offset hread
      obtain ⟨-, -, hindicators, hplaces, hquotes, -, -, -, -, hstamps, hrows⟩ := hrest offset hread
    case indicators => exact hindicators
    case quotes => exact ⟨hplaces, hquotes⟩
    case stamps => exact hstamps
    case rows => exact hrows
  · intro h
    refine ⟨h.object, h.settings, h.offset, fun offset hread => ?_⟩
    obtain ⟨hplaces, hquotes⟩ := h.quotes offset hread
    exact ⟨h.object, h.object, h.indicators offset hread, hplaces, hquotes, hquotes, hquotes,
      hquotes, hquotes, h.stamps offset hread, h.rows offset hread⟩

-- The bars of a chart are read without breaking down exactly where the chart is legible.
theorem sound_bars {data : Json} : Sound (bars w data) ↔ Legible w data := by
  unfold bars
  simp only [sound_member_bind, sound_memberOrEmpty_bind]
  split
  · rename_i herror
    have hsound : Legible w data ↔ IsObject data ∧ IsObject (memberOrEmptyOf "chart" data) :=
      ⟨fun h => ⟨h.object, h.chart⟩, fun ⟨hdata, hchart⟩ => ⟨hdata, hchart, fun h => by
        rw [herror] at h
        cases h⟩⟩
    rw [hsound]
    split <;> exact and_congr_right fun _ => and_iff_left (sound_source _)
  · rename_i herror
    have hgiven := Bool.not_eq_true _ ▸ herror
    rw [sound_member_bind]
    constructor
    · rintro ⟨hdata, hchart, -, hrest⟩
      refine ⟨hdata, hchart, fun _ hresults => ?_⟩
      rw [if_neg (by rw [hresults]; decide), sound_element_bind, sound_bind,
        sound_resultBars] at hrest
      exact ⟨hrest.1, hrest.2.1⟩
    · intro h
      refine ⟨h.object, h.chart, h.chart, ?_⟩
      split
      · exact sound_source _
      · rename_i hresults
        obtain ⟨hplaces, hresult⟩ := h.results hgiven (by simpa using hresults)
        rw [sound_element_bind, sound_bind, sound_resultBars]
        refine ⟨hplaces, hresult, fun bs _ => ?_⟩
        split
        · exact sound_source _
        · exact sound_ok _

-- Bars are only answered if there are any.
theorem bars_ne_nil {data : Json} {bs : List (Bar Float)} (h : bars w data = .ok bs) : bs ≠ [] := by
  unfold bars at h
  obtain ⟨chart, -, h⟩ := except_bind_eq_ok.1 h
  obtain ⟨error, -, h⟩ := except_bind_eq_ok.1 h
  split at h
  · split at h <;> (obtain ⟨_, he, -⟩ := except_bind_eq_ok.1 h; cases he)
  obtain ⟨results, -, h⟩ := except_bind_eq_ok.1 h
  split at h
  · obtain ⟨_, he, -⟩ := except_bind_eq_ok.1 h
    cases he
  obtain ⟨result, -, h⟩ := except_bind_eq_ok.1 h
  obtain ⟨found, -, h⟩ := except_bind_eq_ok.1 h
  split at h
  · cases h
  · rename_i hsome
    cases h
    exact hsome

end BarReplay.Yahoo.Response
