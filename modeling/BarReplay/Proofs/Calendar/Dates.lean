import Mathlib.Order.Defs.LinearOrder
import BarReplay.Calendar.Date

namespace BarReplay

-- The order of dates is that of their keys, and a key belongs to one date only.
instance : LinearOrder Date where
  le_refl a := Nat.le_refl a.key
  le_trans _ _ _ hab hbc := Nat.le_trans hab hbc
  le_antisymm _ _ hab hba := Date.key_inj (Nat.le_antisymm hab hba)
  le_total a b := Nat.le_total a.key b.key
  lt_iff_le_not_ge _ _ := Nat.lt_iff_le_and_not_ge
  toDecidableLE := inferInstance
  toDecidableLT := inferInstance

-- A day of June for examples.
def june (day : Nat) (h : 1 ≤ day ∧ day ≤ 30) : Date :=
  ⟨2024, 6, day, by decide, by decide, h⟩

def daysInYear (year : Nat) : Nat :=
  if isLeapYear year then 366 else 365

namespace Date

theorem daysBeforeMonth_succ (year : Nat) {month : Nat} (h : 1 ≤ month) :
    daysBeforeMonth year (month + 1) = daysBeforeMonth year month + daysInMonth year month := by
  obtain ⟨m, rfl⟩ := Nat.exists_eq_add_of_le' h
  simp only [daysBeforeMonth, Nat.add_sub_cancel, List.range_succ, List.foldl_append,
    List.foldl_cons, List.foldl_nil]

theorem daysBeforeMonth_thirteenth (year : Nat) : daysBeforeMonth year 13 = daysInYear year := by
  unfold daysInYear
  cases h : isLeapYear year <;> simp [daysBeforeMonth, daysInMonth, h, List.range_succ]

theorem daysBeforeYear_succ {year : Nat} (h : 1 ≤ year) :
    daysBeforeYear (year + 1) = daysBeforeYear year + daysInYear year := by
  obtain ⟨y, rfl⟩ := Nat.exists_eq_add_of_le' h
  have hfours : (y + 1) / 4 = y / 4 + (if (y + 1) % 4 = 0 then 1 else 0) := by split <;> omega
  have hcenturies : (y + 1) / 100 = y / 100 + (if (y + 1) % 100 = 0 then 1 else 0) := by
    split <;> omega
  have hcycles : (y + 1) / 400 = y / 400 + (if (y + 1) % 400 = 0 then 1 else 0) := by
    split <;> omega
  have hfour : (y + 1) % 100 = 0 → (y + 1) % 4 = 0 := by omega
  have hcentury : (y + 1) % 400 = 0 → (y + 1) % 100 = 0 := by omega
  have hle : y / 100 ≤ y := Nat.div_le_self y 100
  simp only [daysBeforeYear, daysInYear, isLeapYear, Nat.add_sub_cancel, hfours, hcenturies, hcycles]
  -- what the divisions are no longer matters
  generalize y / 4 = fours, y / 100 = centuries, y / 400 = cycles at *
  by_cases h4 : (y + 1) % 4 = 0 <;> by_cases h100 : (y + 1) % 100 = 0 <;>
    by_cases h400 : (y + 1) % 400 = 0 <;> simp [h4, h100, h400] at hfour hcentury ⊢ <;> omega

-- A cycle of 400 years has four centuries, a century 25 times four years, and only the last year
-- of four may have a day more.
theorem exists_cycle {year r : Nat} (hyear : 1 ≤ year) (hr : r < daysInYear year) :
    ∃ a b c e, b < 4 ∧ c < 25 ∧ e < 4 ∧ year = 400 * a + 100 * b + 4 * c + e + 1 ∧
      daysBeforeYear year = 146097 * a + 36524 * b + 1461 * c + 365 * e ∧
      (r < 365 ∨ r = 365 ∧ e = 3 ∧ (c ≠ 24 ∨ b = 3)) := by
  have hleap : r < 365 ∨ r = 365 ∧ year % 4 = 0 ∧ (year % 100 ≠ 0 ∨ year % 400 = 0) := by
    unfold daysInYear isLeapYear at hr
    by_cases h4 : year % 4 = 0 <;> by_cases h100 : year % 100 = 0 <;>
      by_cases h400 : year % 400 = 0 <;> simp [h4, h100, h400] at hr ⊢ <;> omega
  obtain ⟨a, b, c, e, hb, hc, he, rfl⟩ :
      ∃ a b c e, b < 4 ∧ c < 25 ∧ e < 4 ∧ year = 400 * a + 100 * b + 4 * c + e + 1 :=
    ⟨(year - 1) / 400, (year - 1) % 400 / 100, (year - 1) % 100 / 4, (year - 1) % 4,
      by omega, by omega, by omega, by omega⟩
  refine ⟨a, b, c, e, hb, hc, he, rfl, ?_, ?_⟩
  · have hfours : (400 * a + 100 * b + 4 * c + e) / 4 = 100 * a + 25 * b + c := by omega
    have hcenturies : (400 * a + 100 * b + 4 * c + e) / 100 = 4 * a + b := by omega
    have hcycles : (400 * a + 100 * b + 4 * c + e) / 400 = a := by omega
    simp only [daysBeforeYear, Nat.add_sub_cancel, hfours, hcenturies, hcycles]
    omega
  · obtain hshort | ⟨hlong, hfour, hcentury⟩ := hleap
    · exact .inl hshort
    · obtain rfl : e = 3 := by omega
      refine .inr ⟨hlong, rfl, ?_⟩
      by_cases hlast : c = 24
      · subst hlast
        right
        omega
      · exact .inl hlast

-- The year of a day is found from the number of the day.
theorem yearOfOrdinal_eq {year r : Nat} (hyear : 1 ≤ year) (hr : r < daysInYear year) :
    yearOfOrdinal ((daysBeforeYear year + r + 1 : Nat) : Int) = ((year : Int), r) := by
  obtain ⟨a, b, c, e, hb, hc, he, rfl, hdays, hlast⟩ := exists_cycle hyear hr
  obtain ⟨q, hq⟩ : ∃ q, q = 36524 * b + 1461 * c + 365 * e + r := ⟨_, rfl⟩
  have hn : ((daysBeforeYear (400 * a + 100 * b + 4 * c + e + 1) + r + 1 : Nat) : Int) - 1 =
      ((146097 * a + q : Nat) : Int) := by omega
  have hlt : q < 146097 := by omega
  have hcycle : Int.fdiv ((146097 * a + q : Nat) : Int) 146097 = a := by
    rw [Int.fdiv_eq_ediv_of_nonneg _ (by decide)]
    clear hq hn hdays hlast hr
    omega
  have hrest : (Int.fmod ((146097 * a + q : Nat) : Int) 146097).toNat = q := by
    rw [Int.fmod_eq_emod_of_nonneg _ (by decide)]
    clear hq hn hdays hlast hr
    omega
  have hcentury : min (q / 36524) 3 = b := by omega
  have hcentury' : q - b * 36524 = 1461 * c + 365 * e + r := by omega
  have hfour : (1461 * c + 365 * e + r) / 1461 = c := by omega
  have hfour' : (1461 * c + 365 * e + r) % 1461 = 365 * e + r := by omega
  have hyear : min ((365 * e + r) / 365) 3 = e := by omega
  unfold yearOfOrdinal
  simp only [hn, hcycle, hrest, hcentury, hcentury', hfour, hfour', hyear, Prod.mk.injEq]
  omega

theorem daysBeforeMonth_mono (year : Nat) {month month' : Nat} (h : 1 ≤ month) (hle : month ≤ month') :
    daysBeforeMonth year month ≤ daysBeforeMonth year month' := by
  induction hle with
  | refl => exact Nat.le_refl _
  | @step m hm ih =>
    have hm : month ≤ m := hm
    rw [daysBeforeMonth_succ year (by omega)]
    omega

-- The month is found by taking away the days of one month after the other.
theorem monthDay_range' {year k : Nat} (first skipped months : Nat) (hfirst : 1 ≤ first)
    (hmonth : skipped < months) (hk : k < daysInMonth year (first + skipped)) :
    monthDay year (daysBeforeMonth year (first + skipped) - daysBeforeMonth year first + k)
      (List.range' first months) = (first + skipped, k + 1) := by
  induction skipped generalizing first months with
  | zero =>
    obtain ⟨m, rfl⟩ : ∃ m, months = m + 1 := ⟨months - 1, by omega⟩
    rw [Nat.add_zero] at hk ⊢
    rw [Nat.sub_self, Nat.zero_add, List.range'_succ, monthDay, if_pos hk]
  | succ n ih =>
    obtain ⟨m, rfl⟩ : ∃ m, months = m + 1 := ⟨months - 1, by omega⟩
    have hnext : first + (n + 1) = first + 1 + n := by omega
    rw [hnext] at hk ⊢
    have hmono := daysBeforeMonth_mono year (by omega : 1 ≤ first + 1)
      (by omega : first + 1 ≤ first + 1 + n)
    have hsucc := daysBeforeMonth_succ year hfirst
    have hrest : daysBeforeMonth year (first + 1 + n) - daysBeforeMonth year first + k -
        daysInMonth year first =
          daysBeforeMonth year (first + 1 + n) - daysBeforeMonth year (first + 1) + k := by omega
    rw [List.range'_succ, monthDay, if_neg (by omega), hrest]
    exact ih (first + 1) m (by omega) (by omega) hk

-- The month and the day of the month are found from the day of the year.
theorem monthDay_eq {year month k : Nat} (hmonth : 1 ≤ month ∧ month ≤ 12)
    (hk : k < daysInMonth year month) :
    monthDay year (daysBeforeMonth year month + k) [1, 2, 3, 4, 5, 6, 7, 8, 9, 10, 11, 12] =
      (month, k + 1) := by
  have hmonth' : 1 + (month - 1) = month := by omega
  have hfound := @monthDay_range' year k 1 (month - 1) 12 (by decide) (by omega)
  rw [hmonth', show daysBeforeMonth year 1 = 0 from rfl, Nat.sub_zero] at hfound
  exact hfound hk

theorem daysBeforeYear_mono {year year' : Nat} (h : 1 ≤ year) (hle : year ≤ year') :
    daysBeforeYear year ≤ daysBeforeYear year' := by
  induction hle with
  | refl => exact Nat.le_refl _
  | @step y hy ih =>
    have hy : year ≤ y := hy
    rw [daysBeforeYear_succ (by omega)]
    omega

-- Whatever day of whatever month: its date is found from its number.
theorem ofOrdinal?_eq {year month k : Nat} (hyear : 1 ≤ year) (hmonth : 1 ≤ month ∧ month ≤ 12)
    (hk : k < daysInMonth year month) :
    ofOrdinal? ((daysBeforeYear year + (daysBeforeMonth year month + k) + 1 : Nat) : Int) =
      ofParts? year month (k + 1) := by
  have hr : daysBeforeMonth year month + k < daysInYear year := by
    have hmono := daysBeforeMonth_mono year (by omega : 1 ≤ month + 1)
      (by omega : month + 1 ≤ 13)
    rw [daysBeforeMonth_succ year hmonth.1, daysBeforeMonth_thirteenth] at hmono
    omega
  rw [ofOrdinal?, if_neg (by omega), yearOfOrdinal_eq hyear hr]
  simp only [Int.toNat_natCast, monthDay_eq hmonth hk]

-- Every number from 1 on is that of a day. The next day is the next one of the month, or the first
-- one of the next month or of the next year.
theorem exists_parts (n : Nat) : ∃ year month k, 1 ≤ year ∧ (1 ≤ month ∧ month ≤ 12) ∧
    k < daysInMonth year month ∧
      n + 1 = daysBeforeYear year + (daysBeforeMonth year month + k) + 1 := by
  induction n with
  | zero => exact ⟨1, 1, 0, by decide, by decide, by decide, rfl⟩
  | succ n ih =>
    obtain ⟨year, month, k, hyear, hmonth, hk, hn⟩ := ih
    have hdays (year month : Nat) : 0 < daysInMonth year month := by
      unfold daysInMonth
      split
      · split <;> decide
      · split <;> decide
    by_cases hday : k + 1 < daysInMonth year month
    · exact ⟨year, month, k + 1, hyear, hmonth, hday, by omega⟩
    have hnext := daysBeforeMonth_succ year hmonth.1
    by_cases hlast : month = 12
    · subst hlast
      rw [daysBeforeMonth_thirteenth] at hnext
      have hfirst : daysBeforeMonth (year + 1) 1 = 0 := rfl
      refine ⟨year + 1, 1, 0, by omega, by decide, hdays _ _, ?_⟩
      rw [daysBeforeYear_succ hyear]
      omega
    · exact ⟨year, month + 1, 0, hyear, by omega, hdays _ _, by omega⟩

-- Dates and their numbers belong together.
theorem ofOrdinal?_eq_some_iff {n : Int} {d : Date} :
    ofOrdinal? n = some d ↔ (d.ordinal : Int) = n := by
  constructor
  · intro h
    by_cases hn : n < 1
    · rw [ofOrdinal?, if_pos hn] at h
      cases h
    obtain ⟨m, rfl⟩ : ∃ m : Nat, n = ((m + 1 : Nat) : Int) := ⟨(n - 1).toNat, by omega⟩
    obtain ⟨year, month, k, hyear, hmonth, hk, hm⟩ := exists_parts m
    rw [hm, ofOrdinal?_eq hyear hmonth hk, ofParts?] at h
    split at h
    · split at h
      · cases h
        unfold ordinal
        dsimp only
        omega
      · cases h
    · cases h
  · rintro rfl
    have hk : d.day - 1 < daysInMonth d.year d.month := by have := d.day_le; omega
    have hday : d.day - 1 + 1 = d.day := Nat.sub_add_cancel d.day_le.1
    have hordinal : d.ordinal =
        daysBeforeYear d.year + (daysBeforeMonth d.year d.month + (d.day - 1)) + 1 := by
      unfold ordinal
      omega
    rw [hordinal, ofOrdinal?_eq d.year_le.1 d.month_le hk, hday, ofParts?, dif_pos d.year_le,
      dif_pos d.month_le, dif_pos d.day_le]

-- Dates are ordered by year, then by month and then by day.
theorem lt_cases {a b : Date} (h : a < b) : a.year < b.year ∨
    a.year = b.year ∧ (a.month < b.month ∨ a.month = b.month ∧ a.day < b.day) := by
  have hkey : a.key < b.key := h
  have ha := daysInMonth_le a.year a.month
  have hb := daysInMonth_le b.year b.month
  have hma := a.month_le
  have hmb := b.month_le
  have hda := a.day_le
  have hdb := b.day_le
  unfold key at hkey
  omega

-- Later dates have greater numbers.
theorem ordinal_lt_ordinal {a b : Date} (h : a < b) : a.ordinal < b.ordinal := by
  have hday := a.day_le.2
  have hday' := b.day_le.1
  have hnext := daysBeforeMonth_succ a.year a.month_le.1
  unfold ordinal
  obtain hyear | ⟨hyear, hmonth | ⟨hmonth, h⟩⟩ := lt_cases h
  · have hend := daysBeforeMonth_mono a.year (by omega : 1 ≤ a.month + 1)
      (Nat.succ_le_succ a.month_le.2)
    have hyears := daysBeforeYear_mono (by omega : 1 ≤ a.year + 1) (Nat.succ_le_of_lt hyear)
    rw [daysBeforeMonth_thirteenth] at hend
    rw [daysBeforeYear_succ a.year_le.1] at hyears
    omega
  · have hmonths := daysBeforeMonth_mono a.year (by omega : 1 ≤ a.month + 1)
      (Nat.succ_le_of_lt hmonth)
    rw [← hyear]
    omega
  · rw [hyear, hmonth]
    omega

theorem ordinal_le_ordinal_iff {a b : Date} : a.ordinal ≤ b.ordinal ↔ a ≤ b := by
  constructor
  · intro h
    by_contra hlt
    exact Nat.not_lt.2 h (ordinal_lt_ordinal (not_le.1 hlt))
  · intro h
    obtain hlt | rfl := lt_or_eq_of_le h
    · exact Nat.le_of_lt (ordinal_lt_ordinal hlt)
    · exact Nat.le_refl _

theorem ordinal_bounds (d : Date) : 1 ≤ d.ordinal ∧ d.ordinal ≤ 3652059 := by
  constructor
  · have hday := d.day_le.1
    unfold ordinal
    omega
  · have hle : d ≤ ⟨9999, 12, 31, by decide, by decide, by decide⟩ := by
      have hyear := d.year_le.2
      have hmonth := d.month_le.2
      have hday := Nat.le_trans d.day_le.2 (daysInMonth_le d.year d.month)
      change (d.year * 16 + d.month) * 32 + d.day ≤ (9999 * 16 + 12) * 32 + 31
      omega
    exact ordinal_le_ordinal_iff.2 hle

theorem exists_ordinal {n : Nat} (h : 1 ≤ n) (hlast : n ≤ 3652059) : ∃ d : Date, d.ordinal = n := by
  obtain ⟨m, rfl⟩ := Nat.exists_eq_add_of_le' h
  obtain ⟨year, month, k, hyear, hmonth, hk, hm⟩ := exists_parts m
  have hyears : year ≤ 9999 := by
    by_contra hlate
    have hmono := daysBeforeYear_mono (by decide : 1 ≤ 10000) (by omega : 10000 ≤ year)
    have hend : daysBeforeYear 10000 = 3652059 := rfl
    omega
  refine ⟨⟨year, month, k + 1, ⟨hyear, hyears⟩, hmonth, by omega⟩, ?_⟩
  unfold ordinal
  dsimp only
  omega

-- A second, counted from the start of 1970, falls on a day.
def Covers (d : Date) (second : Int) : Prop :=
  d.epochSeconds ≤ second ∧ second < d.epochSeconds + 86400

instance (d : Date) (second : Int) : Decidable (d.Covers second) :=
  inferInstanceAs (Decidable (_ ∧ _))

theorem covers_iff {d : Date} {second : Int} :
    d.Covers second ↔ ofOrdinal? (ordinalOfSeconds second) = some d := by
  rw [ofOrdinal?_eq_some_iff, ordinalOfSeconds, Int.fdiv_eq_ediv_of_nonneg _ (by decide), Covers,
    epochSeconds]
  omega

theorem Covers.unique {a b : Date} {second : Int} (ha : a.Covers second) (hb : b.Covers second) :
    a = b :=
  Option.some.inj ((covers_iff.1 ha).symm.trans (covers_iff.1 hb))

-- A second between days of the calendar falls on one.
theorem exists_covers {a b : Date} {second : Int} (h : a.epochSeconds ≤ second)
    (hlast : second < b.epochSeconds + 86400) : ∃ d : Date, d.Covers second := by
  have ha := a.ordinal_bounds
  have hb := b.ordinal_bounds
  unfold epochSeconds at h hlast
  have hn : a.ordinal ≤ ordinalOfSeconds second ∧ ordinalOfSeconds second ≤ b.ordinal := by
    rw [ordinalOfSeconds, Int.fdiv_eq_ediv_of_nonneg _ (by decide)]
    omega
  obtain ⟨d, hd⟩ := exists_ordinal (n := (ordinalOfSeconds second).toNat) (by omega) (by omega)
  refine ⟨d, covers_iff.2 (ofOrdinal?_eq_some_iff.2 ?_)⟩
  omega

-- The days of a range are those whose seconds lie between its ends.
theorem Covers.le_iff {a d : Date} {second : Int} (h : d.Covers second) :
    a ≤ d ↔ a.epochSeconds ≤ second := by
  obtain ⟨hfirst, hlast⟩ := h
  rw [← ordinal_le_ordinal_iff]
  unfold epochSeconds at *
  omega

theorem epochSeconds_le {a b : Date} (h : a ≤ b) : a.epochSeconds ≤ b.epochSeconds := by
  have hordinal := ordinal_le_ordinal_iff.2 h
  unfold epochSeconds
  omega

theorem epochSeconds_next {a b : Date} (h : a.next? = some b) :
    b.epochSeconds = a.epochSeconds + 86400 := by
  have hnext := ofOrdinal?_eq_some_iff.1 h
  unfold epochSeconds
  omega

end Date

end BarReplay
