import BarReplay.Proofs.Yahoo.Legible

namespace BarReplay.Yahoo

-- What the source says, told from what is wrong with the values of a chart.
def Error.IsSource : Error → Prop
  | .source _ => True
  | _ => False

namespace Response

theorem dayOf_eq_ok_iff {second : Int} {d : Date} : dayOf second = .ok d ↔ d.Covers second := by
  have h63 : Int.pow 2 63 = 2 ^ 63 := rfl
  unfold dayOf
  rw [h63]
  dsimp only
  split
  · rename_i hclock
    refine iff_of_false nofun fun hd => ?_
    have hordinal := d.ordinal_bounds
    unfold Date.Covers Date.epochSeconds Date.epochOrdinal at hd
    omega
  · rw [Date.covers_iff]
    cases hday : Date.ofOrdinal? (Date.ordinalOfSeconds second) with
    | some d' => simp
    | none =>
      dsimp only
      split <;> exact iff_of_false nofun nofun

theorem dayOf_refuses {second : Int} {e : Error} (h : dayOf second = .error e) : ¬ e.IsSource := by
  unfold dayOf at h
  split at h
  · cases h
    exact id
  · dsimp only at h
    split at h
    · cases h
    · split at h <;> cases h <;> exact id

-- A number, or a gap.
def IsCell : Json → Prop
  | .null | .int _ | .real _ => True
  | _ => False

-- Numbers and gaps, as many as there are.
def IsColumn (j : Json) : Prop :=
  ∃ cells, j = .list cells ∧ ∀ x ∈ cells, IsCell x

theorem IsColumn.hasPlaces {j : Json} (h : IsColumn j) (place : Nat) : HasPlaces place j := by
  obtain ⟨cells, rfl, -⟩ := h
  trivial

theorem IsColumn.cell {j : Json} (h : IsColumn j) (place : Nat) : IsCell (elementOf place j) := by
  obtain ⟨cells, rfl, hcells⟩ := h
  dsimp only [elementOf]
  cases hplace : cells[place]? with
  | none => trivial
  | some x => exact hcells x (List.mem_of_getElem? hplace)

-- A number is read if it is not beyond the doubles.
theorem toNumber_of_cell {j : Json} (h : IsCell j) :
    IsPrice j ∧ (∃ x, toNumber j = .ok x) ∨
      ¬ IsPrice j ∧ ∃ e, toNumber j = .error e ∧ ¬ e.IsSource := by
  cases j with
  | null => exact .inr ⟨id, _, rfl, id⟩
  | real x => exact .inl ⟨trivial, x, rfl⟩
  | int n =>
    have hread : toNumber (.int n) = ofFault .undefinedOffset (Double.ofInt n) := rfl
    rw [hread]
    cases hn : Double.ofInt n with
    | ok x =>
      refine .inl ⟨?_, x, rfl⟩
      by_contra hlarge
      rw [Double.ofInt_eq_error_iff.2 ⟨rfl, Nat.not_lt.1 hlarge⟩] at hn
      cases hn
    | error f =>
      obtain ⟨rfl, hlarge⟩ := Double.ofInt_eq_error_iff.1 hn
      exact .inr ⟨Nat.not_lt.2 hlarge, .breakdown .overflow, rfl, id⟩
  | _ => cases h

theorem toNumber_zero : toNumber (.int 0) = .ok 0 := by decide

-- The prices of a row, and its volume or else a zero.
def numbersOf (c : Columns) (place : Nat) : List Json :=
  c.prices.map (elementOf place) ++ [orElse (elementOf place c.volume) (.int 0)]

-- A bar carries the numbers of a row. A volume that is missing is read as zero.
structure Quotes (c : Columns) (place : Nat) (b : Bar Float) : Prop where
  opening : toNumber (elementOf place c.opening) = .ok b.opening
  high : toNumber (elementOf place c.high) = .ok b.high
  low : toNumber (elementOf place c.low) = .ok b.low
  close : toNumber (elementOf place c.close) = .ok b.close
  volume : toNumber (orElse (elementOf place c.volume) (.int 0)) = .ok b.volume
  gap : elementOf place c.volume = .null → b.volume = 0

def rowBar (c : Columns) (place : Nat) (day : Date) : Except Error (Bar Float) := do
  return {
    date := day
    opening := ← toNumber (elementOf place c.opening)
    high := ← toNumber (elementOf place c.high)
    low := ← toNumber (elementOf place c.low)
    close := ← toNumber (elementOf place c.close)
    volume := ← toNumber (orElse (elementOf place c.volume) (.int 0)) }

variable {w : Wanted} {offset t : Int} {c : Columns} {place : Nat}

theorem bar?_of_incomplete (hplaces : ∀ column ∈ c.prices ++ [c.volume], HasPlaces place column)
    (h : ¬ Complete c place) : bar? w offset c place (.int t) = .ok none := by
  obtain ⟨hopening, hhigh, hlow, hclose, hvolume⟩ := hasPlaces_iff.1 hplaces
  unfold bar?
  rw [element_eq hopening, element_eq hhigh, element_eq hlow, element_eq hclose,
    element_eq hvolume]
  exact if_pos (missing_iff.2 h)

theorem bar?_of_complete (hplaces : ∀ column ∈ c.prices ++ [c.volume], HasPlaces place column)
    (h : Complete c place) : bar? w offset c place (.int t) = do
      let day ← dayOf (t + offset)
      if day < w.start ∨ w.last < day then return none
      return some (← rowBar c place day) := by
  obtain ⟨hopening, hhigh, hlow, hclose, hvolume⟩ := hasPlaces_iff.1 hplaces
  unfold bar? rowBar
  rw [element_eq hopening, element_eq hhigh, element_eq hlow, element_eq hclose,
    element_eq hvolume]
  refine (if_neg fun hmissing => missing_iff.1 hmissing h).trans ?_
  simp only [bind_assoc, pure_bind]
  rfl

theorem rowBar_eq_ok {day : Date} {b : Bar Float} (h : rowBar c place day = .ok b) :
    b.date = day ∧ Quotes c place b := by
  obtain ⟨opening, hopening, h⟩ := except_bind_eq_ok.1 h
  obtain ⟨high, hhigh, h⟩ := except_bind_eq_ok.1 h
  obtain ⟨low, hlow, h⟩ := except_bind_eq_ok.1 h
  obtain ⟨close, hclose, h⟩ := except_bind_eq_ok.1 h
  obtain ⟨volume, hvolume, h⟩ := except_bind_eq_ok.1 h
  cases h
  refine ⟨rfl, hopening, hhigh, hlow, hclose, hvolume, fun hgap => ?_⟩
  rw [hgap, show orElse .null (.int 0) = .int 0 from rfl, toNumber_zero] at hvolume
  exact (Except.ok.inj hvolume).symm

theorem rowBar_eq_error {day : Date} {e : Error} (h : rowBar c place day = .error e) :
    ∃ j ∈ numbersOf c place, toNumber j = .error e := by
  unfold numbersOf Columns.prices
  obtain h | ⟨_, -, h⟩ := except_bind_eq_error.1 h
  · exact ⟨_, by simp, h⟩
  obtain h | ⟨_, -, h⟩ := except_bind_eq_error.1 h
  · exact ⟨_, by simp, h⟩
  obtain h | ⟨_, -, h⟩ := except_bind_eq_error.1 h
  · exact ⟨_, by simp, h⟩
  obtain h | ⟨_, -, h⟩ := except_bind_eq_error.1 h
  · exact ⟨_, by simp, h⟩
  obtain h | ⟨_, -, h⟩ := except_bind_eq_error.1 h
  · exact ⟨_, by simp, h⟩
  · cases h

theorem Quotes.toNumber_ok {b : Bar Float} (h : Quotes c place b) {j : Json}
    (hj : j ∈ numbersOf c place) : ∃ x, toNumber j = .ok x := by
  simp only [numbersOf, Columns.prices, List.map_cons, List.map_nil, List.mem_append, List.mem_cons,
    List.not_mem_nil, or_false] at hj
  rcases hj with (rfl | rfl | rfl | rfl) | rfl
  · exact ⟨_, h.opening⟩
  · exact ⟨_, h.high⟩
  · exact ⟨_, h.low⟩
  · exact ⟨_, h.close⟩
  · exact ⟨_, h.volume⟩

-- Columns of numbers and gaps.
def Columns.Plain (c : Columns) : Prop :=
  ∀ column ∈ c.prices ++ [c.volume], IsColumn column

theorem plain_iff : c.Plain ↔ IsColumn c.opening ∧ IsColumn c.high ∧ IsColumn c.low ∧
    IsColumn c.close ∧ IsColumn c.volume := by
  simp [Columns.Plain, Columns.prices]

theorem Columns.Plain.cell (h : c.Plain) {j : Json} (hj : j ∈ numbersOf c place) : IsCell j := by
  obtain hprice | hvolume := List.mem_append.1 hj
  · obtain ⟨column, hcolumn, rfl⟩ := List.mem_map.1 hprice
    exact (h column (List.mem_append_left _ hcolumn)).cell place
  · obtain rfl := List.mem_singleton.1 hvolume
    unfold orElse
    split
    · exact (h c.volume (by simp)).cell place
    · trivial

-- A row of whole seconds whose time is one of the calendar and whose numbers are doubles, as far
-- as they are looked at.
structure ReadableRow (w : Wanted) (offset : Int) (c : Columns) (place : Nat) (t : Int) : Prop where
  time : Complete c place → ∃ d : Date, d.Covers (t + offset)
  numbers : Complete c place → ∀ d : Date, d.Covers (t + offset) → w.start ≤ d → d ≤ w.last →
    ∀ j ∈ numbersOf c place, IsPrice j

-- What a readable row comes to.
inductive Row (w : Wanted) (offset : Int) (c : Columns) (place : Nat) (t : Int) :
    Option (Bar Float) → Prop
  | incomplete (h : ¬ Complete c place) : Row w offset c place t none
  | unwanted {d : Date} (h : Complete c place) (hday : d.Covers (t + offset))
      (hwanted : ¬ (w.start ≤ d ∧ d ≤ w.last)) : Row w offset c place t none
  | bar {b : Bar Float} (h : Complete c place) (hday : b.date.Covers (t + offset))
      (hwanted : w.start ≤ b.date ∧ b.date ≤ w.last) (hquotes : Quotes c place b) :
      Row w offset c place t (some b)

theorem rowBar_cases (hc : c.Plain) (day : Date) :
    (∀ j ∈ numbersOf c place, IsPrice j) ∧ (∃ b, rowBar c place day = .ok b) ∨
      ¬ (∀ j ∈ numbersOf c place, IsPrice j) ∧
        ∃ e, rowBar c place day = .error e ∧ ¬ e.IsSource := by
  cases hrow : rowBar c place day with
  | ok b =>
    refine .inl ⟨fun j hj => ?_, b, rfl⟩
    obtain ⟨x, hx⟩ := (rowBar_eq_ok hrow).2.toNumber_ok hj
    obtain ⟨hprice, -⟩ | ⟨-, e, he, -⟩ := toNumber_of_cell (hc.cell hj)
    · exact hprice
    · rw [hx] at he
      cases he
  | error e =>
    obtain ⟨j, hj, he⟩ := rowBar_eq_error hrow
    obtain ⟨-, x, hx⟩ | ⟨hprice, e', he', hsource⟩ := toNumber_of_cell (hc.cell hj)
    · rw [he] at hx
      cases hx
    · rw [he] at he'
      cases he'
      exact .inr ⟨fun h => hprice (h j hj), e, rfl, hsource⟩

-- A readable row is read, and any other is refused.
theorem bar?_cases (hc : c.Plain) (w : Wanted) (offset : Int) (place : Nat) (t : Int) :
    ReadableRow w offset c place t ∧
        (∃ r, bar? w offset c place (.int t) = .ok r ∧ Row w offset c place t r) ∨
      ¬ ReadableRow w offset c place t ∧
        ∃ e, bar? w offset c place (.int t) = .error e ∧ ¬ e.IsSource := by
  have hplaces : ∀ column ∈ c.prices ++ [c.volume], HasPlaces place column :=
    fun column hcolumn => (hc column hcolumn).hasPlaces place
  by_cases hcomplete : Complete c place
  case neg =>
    exact .inl ⟨⟨fun h => absurd h hcomplete, fun h => absurd h hcomplete⟩, none,
      bar?_of_incomplete hplaces hcomplete, .incomplete hcomplete⟩
  rw [bar?_of_complete hplaces hcomplete]
  cases hday : dayOf (t + offset) with
  | error e =>
    refine .inr ⟨fun h => ?_, e, rfl, dayOf_refuses hday⟩
    obtain ⟨d, hd⟩ := h.time hcomplete
    rw [dayOf_eq_ok_iff.2 hd] at hday
    cases hday
  | ok day =>
    have hcovers := dayOf_eq_ok_iff.1 hday
    have hunique (d : Date) (hd : d.Covers (t + offset)) : d = day := hd.unique hcovers
    have hbind {f : Date → Except Error (Option (Bar Float))} : (Except.ok day >>= f) = f day := rfl
    rw [hbind]
    by_cases hwanted : w.start ≤ day ∧ day ≤ w.last
    · rw [if_neg (by rw [not_or, not_lt, not_lt]; exact hwanted)]
      obtain ⟨hprices, b, hb⟩ | ⟨hprices, e, he, hsource⟩ := rowBar_cases hc day
      · obtain ⟨rfl, hquotes⟩ := rowBar_eq_ok hb
        refine .inl ⟨⟨fun _ => ⟨_, hcovers⟩, fun _ _ _ _ _ => hprices⟩, some b, ?_,
          .bar hcomplete hcovers hwanted hquotes⟩
        rw [hb]
        rfl
      · refine .inr ⟨fun h => hprices ?_, e, ?_, hsource⟩
        · exact h.numbers hcomplete day hcovers hwanted.1 hwanted.2
        · rw [he]
          rfl
    · rw [if_pos (by rwa [← not_le, ← not_le, ← not_and_or])]
      refine .inl ⟨⟨fun _ => ⟨day, hcovers⟩, fun _ d hd hfirst hlast => ?_⟩, none, rfl,
        .unwanted hcomplete hcovers hwanted⟩
      obtain rfl := hunique d hd
      exact absurd ⟨hfirst, hlast⟩ hwanted

end Response

end BarReplay.Yahoo
