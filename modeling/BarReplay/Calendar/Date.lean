import BarReplay.Decimal.Digits

namespace BarReplay

def isLeapYear (year : Nat) : Bool :=
  year % 4 = 0 && (year % 100 != 0 || year % 400 = 0)

def daysInMonth (year month : Nat) : Nat :=
  if month = 2 then (if isLeapYear year then 29 else 28)
  else if month = 4 ∨ month = 6 ∨ month = 9 ∨ month = 11 then 30
  else 31

-- A day of the Gregorian calendar in the years 1 to 9999.
structure Date where
  year : Nat
  month : Nat
  day : Nat
  year_le : 1 ≤ year ∧ year ≤ 9999
  month_le : 1 ≤ month ∧ month ≤ 12
  day_le : 1 ≤ day ∧ day ≤ daysInMonth year month
  deriving DecidableEq

namespace Date

def ofParts? (year month day : Nat) : Option Date :=
  if hy : 1 ≤ year ∧ year ≤ 9999 then
    if hm : 1 ≤ month ∧ month ≤ 12 then
      if hd : 1 ≤ day ∧ day ≤ daysInMonth year month then
        some ⟨year, month, day, hy, hm, hd⟩
      else none
    else none
  else none

-- Dates in order have increasing keys.
def key (d : Date) : Nat :=
  (d.year * 16 + d.month) * 32 + d.day

instance : LT Date := ⟨fun a b => a.key < b.key⟩
instance : LE Date := ⟨fun a b => a.key ≤ b.key⟩

instance : DecidableLT Date := fun a b => inferInstanceAs (Decidable (a.key < b.key))
instance : DecidableLE Date := fun a b => inferInstanceAs (Decidable (a.key ≤ b.key))

theorem daysInMonth_le (year month : Nat) : daysInMonth year month ≤ 31 := by
  unfold daysInMonth
  split
  · split <;> omega
  · split <;> omega

-- The key determines the date, so the order is total.
theorem key_inj {a b : Date} (h : a.key = b.key) : a = b := by
  have ha := daysInMonth_le a.year a.month
  have hb := daysInMonth_le b.year b.month
  have hma := a.month_le
  have hmb := b.month_le
  have hda := a.day_le
  have hdb := b.day_le
  obtain ⟨ay, am, ad, _, _, _⟩ := a
  obtain ⟨byr, bm, bd, _, _, _⟩ := b
  simp only [key] at *
  have hd : ad = bd := by omega
  have hm : am = bm := by omega
  have hy : ay = byr := by omega
  subst hd hm hy
  rfl

-- Days before the first of January.
def daysBeforeYear (year : Nat) : Nat :=
  let y := year - 1
  365 * y + y / 4 - y / 100 + y / 400

-- Days of the year before the first of the month.
def daysBeforeMonth (year month : Nat) : Nat :=
  (List.range (month - 1)).foldl (fun days m => days + daysInMonth year (m + 1)) 0

-- The number of the day; the first of January of the year 1 is day 1.
def ordinal (d : Date) : Nat :=
  daysBeforeYear d.year + daysBeforeMonth d.year d.month + d.day

def daysUntil (a b : Date) : Int :=
  (b.ordinal : Int) - a.ordinal

-- The month and day of a zero-based day of the year.
def monthDay (year : Nat) (n : Nat) : List Nat → Nat × Nat
  | [] => (13, n + 1)
  | m :: ms =>
    if n < daysInMonth year m then (m, n + 1) else monthDay year (n - daysInMonth year m) ms

-- The year of a day with a given number, and how many days of it come before. The calendar
-- repeats every 400 years of 146097 days; the last century of four and the last year of four
-- are the longer ones. Years before the first are zero and less.
def yearOfOrdinal (n : Int) : Int × Nat :=
  let n := n - 1
  let r := (Int.fmod n 146097).toNat
  let n100 := min (r / 36524) 3
  let r := r - n100 * 36524
  let (n4, r) := (r / 1461, r % 1461)
  let n1 := min (r / 365) 3
  (400 * Int.fdiv n 146097 + (100 * n100 + 4 * n4 + n1 + 1 : Nat), r - n1 * 365)

-- The day with a given number.
def ofOrdinal? (n : Int) : Option Date :=
  if n < 1 then none
  else
    let (year, r) := yearOfOrdinal n
    let (month, day) := monthDay year.toNat r [1, 2, 3, 4, 5, 6, 7, 8, 9, 10, 11, 12]
    ofParts? year.toNat month day

-- The first of January 1970.
def epochOrdinal : Int := 719163

-- Seconds from the start of 1970 to the start of the day.
def epochSeconds (d : Date) : Int :=
  ((d.ordinal : Int) - epochOrdinal) * 86400

-- The number of the day that holds a second counted from the start of 1970.
def ordinalOfSeconds (seconds : Int) : Int :=
  Int.fdiv seconds 86400 + epochOrdinal

def next? (d : Date) : Option Date :=
  ofOrdinal? (d.ordinal + 1)

-- The ISO form, `YYYY-MM-DD`.
def iso (d : Date) : String :=
  Decimal.padded 4 d.year ++ "-" ++ Decimal.padded 2 d.month ++ "-" ++ Decimal.padded 2 d.day

-- The same without zeros in front of the year.
def short (d : Date) : String :=
  Decimal.text d.year ++ "-" ++ Decimal.padded 2 d.month ++ "-" ++ Decimal.padded 2 d.day

end Date

end BarReplay
