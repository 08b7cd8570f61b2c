import Mathlib.Data.List.Basic
import Mathlib.Data.Nat.Digits.Defs
import Mathlib.Tactic.IntervalCases
import BarReplay.Calendar.Pattern
import BarReplay.Proofs.Decimal.Digits
import BarReplay.Proofs.Text.Classes

namespace BarReplay.Calendar

open Decimal Text

-- What a text holds besides white space and digits, in lower case. A format prescribes it, and
-- no two formats prescribe the same.
def marks (cs : List Char) : List Char :=
  (cs.map Char.toLower).filter fun c => !isBlank c && !isDecimalDigit c

theorem marks_append (cs ds : List Char) : marks (cs ++ ds) = marks cs ++ marks ds := by
  rw [marks, List.map_append, List.filter_append]
  rfl

theorem toLower_of_outside {c : Char} (h : c.toNat < 65 ∨ 90 < c.toNat) : c.toLower = c := by
  delta Char.toLower
  rw [dif_neg]
  rintro ⟨hlow, hhigh⟩
  have hlow : 65 ≤ c.toNat := hlow
  have hhigh : c.toNat ≤ 90 := hhigh
  omega

theorem marks_of_digit {c : Char} {d : Nat} (h : decimalDigit? c = some d) : marks [c] = [] := by
  have hapart : ∀ z ∈ zeros, z + 10 ≤ 65 ∨ 90 < z := by decide
  obtain ⟨z, hz, hzc, hcz⟩ := exists_zero_of_decimalDigit? h
  have := hapart z hz
  rw [marks, List.map_singleton, toLower_of_outside (by omega)]
  simp [isDecimalDigit, h]

theorem marks_of_blanks {cs : List Char} (h : ∀ c ∈ cs, isBlank c = true) : marks cs = [] := by
  have hapart : ∀ b ∈ blankRanges, b.2 < 65 ∨ 90 < b.1 := by decide
  refine List.filter_eq_nil_iff.2 fun c hc => ?_
  obtain ⟨d, hd, rfl⟩ := List.mem_map.1 hc
  obtain ⟨b, hb, hlow, hhigh⟩ := exists_range_of_isBlank (h d hd)
  have := hapart b hb
  simp [toLower_of_outside (c := d) (by omega), h d hd]

def Item.marks : Item → List Char
  | char c => Calendar.marks [c]
  | _ => []

-- Ways to match the front of a text that take these marks away.
def Takes {β : Type} (ms s : List Char) (ways : List (β × List Char)) : Prop :=
  ∀ w ∈ ways, ∃ u, s = u ++ w.2 ∧ marks u = ms

namespace Takes

variable {β γ : Type} {ms s : List Char} {ways more : List (β × List Char)}

theorem append (h : Takes ms s ways) (h' : Takes ms s more) : Takes ms s (ways ++ more) :=
  fun w hw => (List.mem_append.1 hw).elim (h w) (h' w)

theorem map (h : Takes ms s ways) (f : β → γ) : Takes ms s (ways.map fun w => (f w.1, w.2)) := by
  intro w hw
  obtain ⟨v, hv, rfl⟩ := List.mem_map.1 hw
  exact h v hv

end Takes

-- A reading of single characters that reads digits only.
def ReadsDigits (p : Char → Option Nat) : Prop :=
  ∀ c n, p c = some n → ∃ d, decimalDigit? c = some d

theorem readsDigits_decimalDigit? : ReadsDigits decimalDigit? :=
  fun _ n h => ⟨n, h⟩

theorem readsDigits_figure {low high : Char} (hrange : '0' ≤ low ∧ high ≤ '9') :
    ReadsDigits (figure low high) := by
  intro c n h
  have hlow : 48 ≤ low.toNat := hrange.1
  have hhigh : high.toNat ≤ 57 := hrange.2
  unfold figure at h
  split at h
  · rename_i hc
    have hclow : low.toNat ≤ c.toNat := hc.1
    have hchigh : c.toNat ≤ high.toNat := hc.2
    refine ⟨c.toNat - 48, ?_⟩
    have hfirst : zeros.find? (fun z => z ≤ c.toNat && c.toNat < z + 10) = some 48 :=
      List.find?_cons_of_pos (by simp; omega)
    rw [decimalDigit?, hfirst]
    rfl
  · cases h

variable {p q : Char → Option Nat} {s : List Char}

theorem takes_one (hp : ReadsDigits p) : Takes [] s (one p s) := by
  intro w hw
  unfold one at hw
  split at hw
  · rename_i c r
    split at hw
    · rename_i n hn
      cases List.mem_singleton.1 hw
      obtain ⟨d, hd⟩ := hp c n hn
      exact ⟨[c], rfl, marks_of_digit hd⟩
    · cases hw
  · cases hw

theorem takes_two (hp : ReadsDigits p) (hq : ReadsDigits q) : Takes [] s (two p q s) := by
  intro w hw
  unfold two at hw
  split at hw
  · rename_i c d r
    split at hw
    · rename_i m n hm hn
      cases List.mem_singleton.1 hw
      obtain ⟨_, hc⟩ := hp c m hm
      obtain ⟨_, hd⟩ := hq d n hn
      refine ⟨[c] ++ [d], rfl, ?_⟩
      rw [marks_append, marks_of_digit hc, marks_of_digit hd]
      rfl
    · cases hw
  · cases hw

theorem takes_four : Takes [] s (four s) := by
  intro w hw
  unfold four at hw
  split at hw
  · rename_i a b c d r
    split at hw
    · rename_i ha hb hc hd
      cases List.mem_singleton.1 hw
      refine ⟨[a] ++ [b] ++ [c] ++ [d], rfl, ?_⟩
      rw [marks_append, marks_append, marks_append, marks_of_digit ha, marks_of_digit hb,
        marks_of_digit hc, marks_of_digit hd]
      rfl
    · cases hw
  · cases hw

theorem takes_monthWays : Takes [] s (monthWays s) := by
  refine .append (.append (takes_two ?_ ?_) (takes_two ?_ ?_)) (takes_one ?_) <;>
    exact readsDigits_figure (by decide)

theorem takes_dayWays : Takes [] s (dayWays s) := by
  refine .append (.append (.append (.append (takes_two ?_ ?_) (takes_two ?_ ?_)) (takes_two ?_ ?_))
    (takes_one ?_)) ?spaced
  case spaced =>
    split
    · rename_i r
      intro w hw
      obtain ⟨u, hu, hmarks⟩ := takes_one (readsDigits_figure (by decide)) w hw
      refine ⟨[' '] ++ u, by rw [hu]; rfl, ?_⟩
      rw [marks_append, hmarks]
      decide
    · exact fun w hw => nomatch hw
  all_goals first | exact readsDigits_decimalDigit? | exact readsDigits_figure (by decide)

theorem takes_minuteWays : Takes [] s (minuteWays s) :=
  .append (takes_two (readsDigits_figure (by decide)) readsDigits_decimalDigit?)
    (takes_one readsDigits_decimalDigit?)

theorem takes_hourWays : Takes [] s (hourWays s) := by
  refine .append (.append (takes_two ?_ ?_) (takes_two ?_ ?_)) (takes_one ?_)
  all_goals first | exact readsDigits_decimalDigit? | exact readsDigits_figure (by decide)

theorem takes_secondWays : Takes [] s (secondWays s) :=
  .append (takes_two (readsDigits_figure (by decide)) (readsDigits_figure (by decide)))
    takes_minuteWays

-- Each piece of a format takes its marks, in whichever way it matches.
theorem Item.takes (i : Item) (p : Parts) (s : List Char) : Takes i.marks s (i.ways p s) := by
  cases i with
  | year => exact takes_four.map fun n => { p with year := n }
  | month => exact takes_monthWays.map fun n => { p with month := n }
  | day => exact takes_dayWays.map fun n => { p with day := n }
  | hour => exact takes_hourWays.map fun n => { p with hour := n }
  | minute => exact takes_minuteWays.map fun n => { p with minute := n }
  | second => exact takes_secondWays.map fun n => { p with second := n }
  | char c =>
    intro w hw
    unfold ways at hw
    dsimp only at hw
    split at hw
    · rename_i d r
      split at hw
      · rename_i hsame
        cases List.mem_singleton.1 hw
        refine ⟨[d], rfl, ?_⟩
        rw [Item.marks, Calendar.marks, Calendar.marks, List.map_singleton, List.map_singleton, hsame]
      · cases hw
    · cases hw
  | blank =>
    intro w hw
    obtain ⟨r, hr, rfl⟩ := List.mem_map.1 hw
    obtain ⟨k, hk, rfl⟩ := List.mem_map.1 hr
    refine ⟨s.take ((s.takeWhile isBlank).length - k), (List.take_append_drop _ _).symm, ?_⟩
    refine marks_of_blanks fun c hc => ?_
    have hfront : s.take (s.takeWhile isBlank).length = s.takeWhile isBlank :=
      (List.prefix_iff_eq_take.1 (List.takeWhile_prefix isBlank)).symm
    have hmem := (List.take_prefix_take_left (Nat.sub_le _ k)).subset hc
    rw [hfront] at hmem
    exact List.all_eq_true.1 List.all_takeWhile c hmem

theorem firstMatch_takes {format : List Item} {p : Parts} {s : List Char} {w : Parts × List Char}
    (h : firstMatch p s format = some w) :
    ∃ u, s = u ++ w.2 ∧ marks u = format.flatMap Item.marks := by
  induction format generalizing p s with
  | nil =>
    cases h
    exact ⟨[], rfl, rfl⟩
  | cons i format ih =>
    obtain ⟨v, hv, hrest⟩ := List.exists_of_findSome?_eq_some h
    obtain ⟨u, hu, hmarks⟩ := i.takes p s v hv
    obtain ⟨u', hu', hmarks'⟩ := ih hrest
    refine ⟨u ++ u', by rw [hu, hu', List.append_assoc], ?_⟩
    rw [marks_append, hmarks, hmarks', List.flatMap_cons]

-- What is read in a format has the marks of the format.
theorem Item.marks_of_parse? {format : List Item} {s : String} {d : Date}
    (h : Item.parse? format s = some d) : Calendar.marks s.toList = format.flatMap Item.marks := by
  obtain ⟨⟨p, rest⟩, hmatch, hd⟩ := Option.bind_eq_some_iff.1 h
  obtain ⟨u, hu, hmarks⟩ := firstMatch_takes hmatch
  cases rest with
  | nil =>
    rw [hu, List.append_nil]
    exact hmarks
  | cons c rest => cases hd

theorem barFormats_inj : ∀ f ∈ barFormats, ∀ g ∈ barFormats,
    f.flatMap Item.marks = g.flatMap Item.marks → f = g := by
  decide

-- So it is read in one format, if at all.
theorem Item.format_unique {f g : List Item} (hf : f ∈ barFormats) (hg : g ∈ barFormats)
    {s : String} {d e : Date} (hd : Item.parse? f s = some d) (he : Item.parse? g s = some e) :
    f = g :=
  barFormats_inj f hf g hg ((Item.marks_of_parse? hd).symm.trans (Item.marks_of_parse? he))

-- The date of a text is the one that it gives in any of the formats.
theorem parseDate?_eq_some_iff {formats : List (List Item)} (hformats : formats ⊆ barFormats)
    {s : String} {d : Date} :
    parseDate? formats s = some d ↔ ∃ f ∈ formats, Item.parse? f (strip s) = some d := by
  constructor
  · exact List.exists_of_findSome?_eq_some
  · rintro ⟨f, hf, hd⟩
    cases hread : parseDate? formats s with
    | none => exact absurd hd (by rw [List.findSome?_eq_none_iff.1 hread f hf]; exact nofun)
    | some e =>
      obtain ⟨g, hg, he⟩ := List.exists_of_findSome?_eq_some hread
      cases Item.format_unique (hformats hf) (hformats hg) hd he
      exact he.symm.trans hd

-- A time of day, without leap seconds.
structure TimeOfDay where
  hour : Fin 24
  minute : Fin 60
  second : Fin 60

namespace Item

variable (d : Date) (t : TimeOfDay)

-- What stands for a piece of a format, with zeros in front of numbers.
def write : Item → List Char
  | year => (padded 4 d.year).toList
  | month => (padded 2 d.month).toList
  | day => (padded 2 d.day).toList
  | hour => (padded 2 t.hour).toList
  | minute => (padded 2 t.minute).toList
  | second => (padded 2 t.second).toList
  | char c => [c]
  | blank => [' ']

def put (p : Parts) : Item → Parts
  | year => { p with year := d.year }
  | month => { p with month := d.month }
  | day => { p with day := d.day }
  | hour => { p with hour := t.hour }
  | minute => { p with minute := t.minute }
  | second => { p with second := t.second }
  | char _ | blank => p

-- A piece that no white space stands for.
def isDense : Item → Bool
  | char c => !isBlank c
  | blank => false
  | _ => true

end Item

def written (d : Date) (t : TimeOfDay) (format : List Item) : List Char :=
  format.flatMap (Item.write d t)

-- The preferred way to read a number that is written with zeros in front is to read all of it.

theorem four_padded {n : Nat} (h : n ≤ 9999) (r : List Char) :
    four ((padded 4 n).toList ++ r) = [(n, r)] := by
  have hlength : (padded 4 n).toList.length = 4 := by
    have := Nat.toDigits_length 10 n 4 (by decide) (by omega)
    rw [padded, String.toList_ofList, List.length_append, List.length_replicate, digits]
    omega
  obtain ⟨ds, hds, -, rfl⟩ := exists_padded 4 n
  obtain ⟨a, b, c, d, hcs⟩ := List.length_eq_four.1 hlength
  obtain ⟨w, x, y, z, rfl⟩ := List.length_eq_four.1 (hds.length_eq.symm.trans hlength)
  rw [hcs] at hds ⊢
  simp only [Digits.cons_iff] at hds
  obtain ⟨ha, hb, hc, hd, -⟩ := hds
  simp [four, ha, hb, hc, hd, value]

theorem monthWays_padded {n : Nat} (h : 1 ≤ n ∧ n ≤ 12) (r : List Char) :
    ∃ more, monthWays ((padded 2 n).toList ++ r) = (n, r) :: more := by
  obtain ⟨hlow, hhigh⟩ := h
  interval_cases n <;> exact ⟨_, rfl⟩

theorem dayWays_padded {n : Nat} (h : 1 ≤ n ∧ n ≤ 31) (r : List Char) :
    ∃ more, dayWays ((padded 2 n).toList ++ r) = (n, r) :: more := by
  obtain ⟨hlow, hhigh⟩ := h
  interval_cases n <;> exact ⟨_, rfl⟩

theorem hourWays_padded {n : Nat} (h : n < 24) (r : List Char) :
    ∃ more, hourWays ((padded 2 n).toList ++ r) = (n, r) :: more := by
  interval_cases n <;> exact ⟨_, rfl⟩

theorem minuteWays_padded {n : Nat} (h : n < 60) (r : List Char) :
    ∃ more, minuteWays ((padded 2 n).toList ++ r) = (n, r) :: more := by
  interval_cases n <;> exact ⟨_, rfl⟩

theorem secondWays_padded {n : Nat} (h : n < 60) (r : List Char) :
    ∃ more, secondWays ((padded 2 n).toList ++ r) = (n, r) :: more := by
  interval_cases n <;> exact ⟨_, rfl⟩

-- Text whose front is not white space.
def Dense (s : List Char) : Prop :=
  ∀ c ∈ s.head?, isBlank c = false

variable {d : Date} {t : TimeOfDay}

-- White space is read to its end first, so what follows it must not go on with it.
theorem Item.ways_write (i : Item) (p : Parts) {r : List Char} (h : i = .blank → Dense r) :
    ∃ more, i.ways p (i.write d t ++ r) = (i.put d t p, r) :: more := by
  cases i with
  | year =>
    have hyear := four_padded d.year_le.2 r
    exact ⟨[], by rw [ways, write, hyear]; rfl⟩
  | month =>
    obtain ⟨more, hmonth⟩ := monthWays_padded d.month_le r
    exact ⟨_, by rw [ways, write, hmonth]; rfl⟩
  | day =>
    have hday : d.day ≤ 31 := d.day_le.2.trans (Date.daysInMonth_le d.year d.month)
    obtain ⟨more, hday⟩ := dayWays_padded ⟨d.day_le.1, hday⟩ r
    exact ⟨_, by rw [ways, write, hday]; rfl⟩
  | hour =>
    obtain ⟨more, hhour⟩ := hourWays_padded t.hour.isLt r
    exact ⟨_, by rw [ways, write, hhour]; rfl⟩
  | minute =>
    obtain ⟨more, hminute⟩ := minuteWays_padded t.minute.isLt r
    exact ⟨_, by rw [ways, write, hminute]; rfl⟩
  | second =>
    obtain ⟨more, hsecond⟩ := secondWays_padded t.second.isLt r
    exact ⟨_, by rw [ways, write, hsecond]; rfl⟩
  | char c => exact ⟨[], if_pos rfl⟩
  | blank =>
    have hfront : (' ' :: r).takeWhile isBlank = [' '] := by
      rw [List.takeWhile_cons_of_pos (by decide)]
      cases r with
      | nil => rfl
      | cons c r => rw [List.takeWhile_cons_of_neg (by rw [h rfl c rfl]; decide)]
    have hways : blankWays (' ' :: r) = [r] := by
      rw [blankWays, hfront]
      rfl
    exact ⟨[], by rw [ways, write, List.singleton_append, hways]; rfl⟩

theorem Item.write_dense {i : Item} (h : i.isDense = true) :
    i.write d t ≠ [] ∧ ∀ c ∈ i.write d t, isBlank c = false := by
  have hpadded (width n : Nat) :
      (padded width n).toList ≠ [] ∧ ∀ c ∈ (padded width n).toList, isBlank c = false := by
    obtain ⟨ds, hds, hne, -⟩ := exists_padded width n
    constructor
    · exact fun hnil => hne (by rw [hnil] at hds; exact hds.nil_left)
    · intro c hc
      obtain ⟨x, -, hx⟩ := List.mem_map.1 (hds ▸ List.mem_map_of_mem (f := decimalDigit?) hc)
      cases hblank : isBlank c with
      | false => rfl
      | true => cases hx.trans (decimalDigit?_of_isBlank hblank)
  cases i with
  | char c =>
    have hblank : (!isBlank c) = true := h
    refine ⟨List.cons_ne_nil _ _, fun b hb => ?_⟩
    rw [List.mem_singleton.1 hb]
    rwa [Bool.not_eq_true'] at hblank
  | blank => cases h
  | _ => exact hpadded _ _

-- Formats in which white space stands between pieces of another kind.
structure Tidy (format : List Item) : Prop where
  between : format.IsChain fun i j => i = .blank → j.isDense = true
  head : ∀ i ∈ format.head?, i.isDense = true
  last : ∀ i ∈ format.getLast?, i.isDense = true
  ne_nil : format ≠ []

theorem tidy_barFormats : ∀ f ∈ barFormats, Tidy f := by
  have hall : ∀ f ∈ barFormats, (f.IsChain fun i j => i = .blank → j.isDense = true) ∧
      (∀ i ∈ f.head?, i.isDense = true) ∧ (∀ i ∈ f.getLast?, i.isDense = true) ∧ f ≠ [] := by
    decide
  intro f hf
  obtain ⟨hbetween, hhead, hlast, hne⟩ := hall f hf
  exact ⟨hbetween, hhead, hlast, hne⟩

theorem dense_written {format : List Item} (h : ∀ i ∈ format.head?, i.isDense = true) :
    Dense (written d t format) := by
  cases format with
  | nil => exact nofun
  | cons i format =>
    obtain ⟨hne, hdense⟩ := Item.write_dense (d := d) (t := t) (h i rfl)
    obtain ⟨b, cs, hcs⟩ := List.exists_cons_of_ne_nil hne
    intro c hc
    rw [written, List.flatMap_cons, hcs] at hc
    cases hc
    exact hdense b (hcs ▸ List.mem_cons_self)

theorem firstMatch_written {format : List Item}
    (h : format.IsChain fun i j => i = .blank → j.isDense = true) (p : Parts) :
    firstMatch p (written d t format) format = some (format.foldl (Item.put d t) p, []) := by
  have hstep {i : Item} {is : List Item} (p : Parts) (hi : i = .blank → Dense (written d t is))
      (hrest : firstMatch (i.put d t p) (written d t is) is =
        some (is.foldl (Item.put d t) (i.put d t p), [])) :
      firstMatch p (written d t (i :: is)) (i :: is) =
        some ((i :: is).foldl (Item.put d t) p, []) := by
    obtain ⟨more, hmore⟩ := i.ways_write p hi
    rw [firstMatch, written, List.flatMap_cons, ← written, hmore, List.findSome?_cons]
    dsimp only
    rw [hrest]
    rfl
  induction h generalizing p with
  | nil => rfl
  | singleton i => exact hstep p (fun _ => nofun) rfl
  | cons_cons hij _ ih =>
    refine hstep p (fun hi => dense_written ?_) (ih _)
    rintro _ ⟨⟩
    exact hij hi

-- The front of a written date, and its end, are not white space.

theorem dense_reverse_written {format : List Item}
    (h : ∀ i ∈ format.getLast?, i.isDense = true) : Dense (written d t format).reverse := by
  obtain rfl | ⟨is, i, rfl⟩ := List.eq_nil_or_concat' format
  · exact nofun
  · have hi : i.isDense = true := h i List.getLast?_concat
    obtain ⟨hne, hdense⟩ := Item.write_dense (d := d) (t := t) hi
    have hend : (written d t (is ++ [i])).reverse =
        (i.write d t).reverse ++ (written d t is).reverse := by
      rw [written, List.flatMap_append, List.flatMap_singleton, List.reverse_append, ← written]
    intro c hc
    obtain ⟨b, cs, hcs⟩ := List.exists_cons_of_ne_nil (List.reverse_ne_nil_iff.2 hne)
    rw [hend, hcs] at hc
    cases hc
    exact hdense c (List.mem_reverse.1 (hcs ▸ List.mem_cons_self))

theorem Dense.dropWhile_blanks {blanks s : List Char} (hblank : ∀ c ∈ blanks, isBlank c = true)
    (hs : Dense s) : (blanks ++ s).dropWhile isBlank = s := by
  rw [List.dropWhile_append_of_pos hblank]
  cases s with
  | nil => rfl
  | cons c s => exact List.dropWhile_cons_of_neg (by rw [hs c rfl]; decide)

theorem Dense.append {s : List Char} (hs : Dense s) (hne : s ≠ []) (r : List Char) :
    Dense (s ++ r) := by
  intro c hc
  rw [List.head?_append_of_ne_nil s hne] at hc
  exact hs c hc

theorem strip_surrounded {before s after : List Char} (hbefore : ∀ c ∈ before, isBlank c = true)
    (hafter : ∀ c ∈ after, isBlank c = true) (hne : s ≠ []) (hfront : Dense s)
    (hend : Dense s.reverse) : strip (String.ofList (before ++ s ++ after)) = String.ofList s := by
  have hleft : (before ++ s ++ after).dropWhile isBlank = s ++ after := by
    rw [List.append_assoc]
    exact (hfront.append hne after).dropWhile_blanks hbefore
  have hright : (s ++ after).reverse.dropWhile isBlank = s.reverse := by
    rw [List.reverse_append]
    exact hend.dropWhile_blanks fun c hc => hafter c (List.mem_reverse.1 hc)
  rw [strip, String.toList_ofList, trimBy, hleft, hright, List.reverse_reverse]

theorem ofParts?_self (d : Date) : Date.ofParts? d.year d.month d.day = some d := by
  rw [Date.ofParts?, dif_pos d.year_le, dif_pos d.month_le, dif_pos d.day_le]

theorem put_barFormats {f : List Item} (hf : f ∈ barFormats) (d : Date) (t : TimeOfDay) :
    let p := f.foldl (Item.put d t) {}
    p.year = d.year ∧ p.month = d.month ∧ p.day = d.day ∧ p.second ≤ 59 := by
  have hsecond : t.second.val ≤ 59 := Nat.le_of_lt_succ t.second.isLt
  simp only [barFormats, List.mem_cons, List.not_mem_nil, or_false] at hf
  obtain rfl | rfl | rfl | rfl | rfl := hf
  · exact ⟨rfl, rfl, rfl, Nat.zero_le _⟩
  · exact ⟨rfl, rfl, rfl, hsecond⟩
  · exact ⟨rfl, rfl, rfl, hsecond⟩
  · exact ⟨rfl, rfl, rfl, hsecond⟩
  · exact ⟨rfl, rfl, rfl, Nat.zero_le _⟩

theorem Item.parse?_written {f : List Item} (hf : f ∈ barFormats) (d : Date) (t : TimeOfDay) :
    Item.parse? f (String.ofList (written d t f)) = some d := by
  obtain ⟨hyear, hmonth, hday, hsecond⟩ := put_barFormats hf d t
  rw [Item.parse?, String.toList_ofList, firstMatch_written (tidy_barFormats f hf).between]
  dsimp only [Option.bind_eq_bind, Option.bind_some]
  rw [hyear, hmonth, hday, if_pos (by simpa using hsecond)]
  exact ofParts?_self d

theorem parseDate?_written {f : List Item} (hf : f ∈ barFormats) (d : Date) (t : TimeOfDay)
    {before after : List Char} (hbefore : ∀ c ∈ before, isBlank c = true)
    (hafter : ∀ c ∈ after, isBlank c = true) :
    parseDate? barFormats (String.ofList (before ++ written d t f ++ after)) = some d := by
  have htidy := tidy_barFormats f hf
  have hne : written d t f ≠ [] := by
    obtain ⟨i, is, rfl⟩ := List.exists_cons_of_ne_nil htidy.ne_nil
    have hi := (Item.write_dense (d := d) (t := t) (htidy.head i rfl)).1
    rw [written, List.flatMap_cons]
    exact List.append_ne_nil_of_left_ne_nil hi _
  have hstrip := strip_surrounded hbefore hafter hne (dense_written htidy.head)
    (dense_reverse_written htidy.last)
  exact (parseDate?_eq_some_iff (List.Subset.refl _)).2 ⟨f, hf, by rw [hstrip, Item.parse?_written hf]⟩

theorem parseDate?_iso (d : Date) : parseDate? barFormats d.iso = some d := by
  have hwritten : String.ofList (written d ⟨0, 0, 0⟩ isoDate) = d.iso := by
    simp [written, isoDate, Item.write, Date.iso, ← String.toList_inj]
  have hread := parseDate?_written (f := isoDate) (by decide) d ⟨0, 0, 0⟩
    (List.forall_mem_nil (isBlank · = true)) (List.forall_mem_nil (isBlank · = true))
  rwa [List.append_nil, List.nil_append, hwritten] at hread

-- A date is read as itself in every format, with any white space around it. No text has two of the
-- formats, so neither the order in which they are tried matters nor that one of the lists has
-- fewer of them.
theorem dates_unambiguous :
    (∀ f ∈ barFormats, ∀ (d : Date) (t : TimeOfDay) (before after : List Char),
      (∀ c ∈ before, isBlank c = true) → (∀ c ∈ after, isBlank c = true) →
      parseDate? barFormats (String.ofList (before ++ written d t f ++ after)) = some d) ∧
    (∀ f ∈ barFormats, ∀ g ∈ barFormats, ∀ s d e,
      Item.parse? f s = some d → Item.parse? g s = some e → f = g ∧ d = e) ∧
    (∀ formats, formats.Perm barFormats →
      ∀ s, parseDate? formats s = parseDate? barFormats s) ∧
    ∀ s d, parseDate? chartFormats s = some d → parseDate? barFormats s = some d := by
  have hchart : chartFormats ⊆ barFormats := by decide
  refine ⟨fun f hf d t before after => parseDate?_written hf d t, ?_, ?_, ?_⟩
  · intro f hf g hg s d e hd he
    cases Item.format_unique hf hg hd he
    exact ⟨rfl, Option.some.inj (hd.symm.trans he)⟩
  · intro formats hperm s
    refine Option.ext fun d => ?_
    rw [parseDate?_eq_some_iff hperm.subset, parseDate?_eq_some_iff (List.Subset.refl _)]
    exact exists_congr fun f => and_congr_left fun _ => hperm.mem_iff
  · intro s d hd
    obtain ⟨f, hf, hread⟩ := (parseDate?_eq_some_iff hchart).1 hd
    exact (parseDate?_eq_some_iff (List.Subset.refl _)).2 ⟨f, hchart hf, hread⟩

-- A leap day.
theorem dates_unambiguous_leap_day : ∃ d : Date, d.iso = "2024-02-29" ∧
    parseDate? barFormats "\t2024-02-29T23:59:59Z " = some d ∧
    Item.parse? slashDate "2024-2-29" = none ∧
    parseDate? barFormats.reverse "2024-2-29" = parseDate? barFormats "2024-2-29" ∧
    parseDate? barFormats "2/29/2024" = some d := by
  obtain ⟨hwritten, hunique, horder, hchart⟩ := dates_unambiguous
  let d : Date := ⟨2024, 2, 29, by decide, by decide, by decide⟩
  refine ⟨d, by decide, ?_, ?_, ?_, ?_⟩
  · have htext : String.ofList (['\t'] ++ written d ⟨23, 59, 59⟩
        (isoDate ++ [.char 'T'] ++ clock ++ [.char 'Z']) ++ [' ']) = "\t2024-02-29T23:59:59Z " := by
      decide
    rw [← htext]
    exact hwritten _ (by decide) d _ _ _ (List.forall_mem_singleton.2 rfl)
      (List.forall_mem_singleton.2 rfl)
  · refine Option.eq_none_iff_forall_ne_some.2 fun e he => ?_
    have hread : Item.parse? isoDate "2024-2-29" = some d := by decide
    exact absurd (hunique isoDate (by decide) slashDate (by decide) _ d e hread he).1 (by decide)
  · exact horder _ (List.reverse_perm _) _
  · exact hchart _ d (by decide)

end BarReplay.Calendar
