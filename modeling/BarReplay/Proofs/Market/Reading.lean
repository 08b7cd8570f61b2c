import BarReplay.Market.BarFile
import BarReplay.Proofs.Calendar.Formats
import BarReplay.Proofs.Except
import BarReplay.Proofs.Text.Decoding
import Mathlib.Data.List.Forall2

namespace BarReplay

namespace Csv

-- The characters that do not stand for themselves in every field.
def marks : List Char := ['"', ',', '\n', '\r']

section Places

variable {place : Place} (hplace : place ≠ .quoted)

include hplace

-- Another character goes on with a field, if there is room for it.
theorem readFrom_letter {c : Char} (hc : c ∉ marks) (fields : List String) (field rest : List Char)
    (room : Nat) :
    readFrom place ⟨fields, field, room + 1⟩ (c :: rest) =
        readFrom .plain ⟨fields, c :: field, room⟩ rest ∧
      readFrom place ⟨fields, field, 0⟩ (c :: rest) = ⟨[], .longField⟩ := by
  simp only [marks, List.mem_cons, List.not_mem_nil, or_false, not_or] at hc
  obtain ⟨hquote, hcomma, hfeed, hreturn⟩ := hc
  constructor
  all_goals
    rw [readFrom]
    simp only [hplace, hquote, hcomma, hfeed, hreturn, if_false, false_and, or_self]

theorem readFrom_letters {c : Char} (hc : c ∉ marks) (row : Row) :
    readFrom place row (List.replicate (row.room + 1) c) = ⟨[], .longField⟩ := by
  obtain ⟨fields, field, room⟩ := row
  induction room generalizing place field with
  | zero => exact (readFrom_letter hplace hc fields field [] 0).2
  | succ room ih =>
    rw [List.replicate_succ, (readFrom_letter hplace hc ..).1]
    exact ih (fun h => by cases h) _

-- So does a text, which need not be there.
theorem readFrom_text {text : List Char} (htext : ∀ c ∈ text, c ∉ marks) {room : Nat}
    (hroom : text.length ≤ room) (fields : List String) (field rest : List Char) :
    ∃ next, next ≠ .quoted ∧ (next = .rowStart → place = .rowStart ∧ text = []) ∧
      readFrom place ⟨fields, field, room⟩ (text ++ rest) =
        readFrom next ⟨fields, text.reverse ++ field, room - text.length⟩ rest := by
  induction text generalizing place field room with
  | nil => exact ⟨place, hplace, fun h => ⟨h, rfl⟩, rfl⟩
  | cons c text ih =>
    obtain ⟨hc, htext⟩ := List.forall_mem_cons.1 htext
    rw [List.length_cons] at hroom
    obtain ⟨more, rfl⟩ : ∃ more, room = more + 1 := ⟨room - 1, by omega⟩
    have hplain : Place.plain ≠ .quoted := nofun
    obtain ⟨next, hnext, hshown, hread⟩ :=
      ih hplain htext (by omega : text.length ≤ more) (c :: field)
    refine ⟨next, hnext, fun h => absurd (hshown h).1 nofun, ?_⟩
    rw [List.cons_append, (readFrom_letter hplace hc ..).1, hread, List.reverse_cons,
      List.append_assoc, List.length_cons, Nat.add_sub_add_right]
    rfl

theorem readFrom_comma (row : Row) (rest : List Char) :
    readFrom place row (',' :: rest) = readFrom .fieldStart row.close rest := by
  rw [readFrom]
  simp [hplace]

theorem readFrom_feed (row : Row) (rest : List Char) :
    readFrom place row ('\n' :: rest) =
      (readFrom .rowStart .start rest).add (if place = .rowStart then [] else row.finish) := by
  rw [readFrom]
  simp [hplace]

end Places

-- A row as text.
def line : List String → List Char
  | [] => ['\n']
  | [field] => field.toList ++ ['\n']
  | field :: more => field.toList ++ ',' :: line more

theorem mem_line {row : List String} {c : Char} (h : c ∈ line row) :
    c ∈ [',', '\n'] ∨ ∃ field ∈ row, c ∈ field.toList := by
  induction row using line.induct with
  | case1 => exact .inl (List.mem_cons_of_mem _ h)
  | case2 field =>
    rw [line, List.mem_append] at h
    exact h.elim (fun h => .inr ⟨field, List.mem_cons_self, h⟩)
      fun h => .inl (List.mem_cons_of_mem _ h)
  | case3 field more hmore ih =>
    rw [line, List.mem_append, List.mem_cons] at h
    · obtain h | rfl | h := h
      · exact .inr ⟨field, List.mem_cons_self, h⟩
      · exact .inl List.mem_cons_self
      · exact (ih h).imp_right fun ⟨other, hother, hc⟩ =>
          ⟨other, List.mem_cons_of_mem _ hother, hc⟩
    · exact hmore

-- A row whose fields can be written as they stand: their characters stand for themselves, and they
-- are not too long.
structure Plain (row : List String) : Prop where
  characters : ∀ field ∈ row, ∀ c ∈ field.toList, c ∉ marks
  lengths : ∀ field ∈ row, field.toList.length ≤ fieldLimit

theorem Plain.of_cons {field : String} {row : List String} (h : Plain (field :: row)) : Plain row :=
  ⟨(List.forall_mem_cons.1 h.characters).2, (List.forall_mem_cons.1 h.lengths).2⟩

theorem Plain.readFrom_line {row : List String} (h : Plain row) {place : Place}
    (hplace : place ≠ .quoted) (hsome : row ≠ []) (hvisible : place = .rowStart → row ≠ [""])
    (fields : List String) (rest : List Char) :
    readFrom place ⟨fields, [], fieldLimit⟩ (line row ++ rest) =
      (readFrom .rowStart .start rest).add (fields.reverse ++ row) := by
  induction row using line.induct generalizing place fields with
  | case1 => exact absurd rfl hsome
  | case2 field =>
    obtain ⟨next, hnext, hshown, hread⟩ := readFrom_text hplace
      (h.characters field List.mem_cons_self) (h.lengths field List.mem_cons_self) fields []
      ('\n' :: rest)
    have hstarted : next ≠ .rowStart := by
      intro hstart
      obtain ⟨hplace, hempty⟩ := hshown hstart
      exact hvisible hplace (by rw [String.toList_eq_nil_iff.1 hempty])
    rw [line, List.append_assoc, List.singleton_append, hread, readFrom_feed hnext,
      if_neg hstarted]
    simp [Row.finish, Row.close]
  | case3 field more hmore ih =>
    obtain ⟨next, hnext, -, hread⟩ := readFrom_text hplace
      (h.characters field List.mem_cons_self) (h.lengths field List.mem_cons_self) fields []
      (',' :: (line more ++ rest))
    have hfield : (Place.fieldStart) ≠ .quoted := nofun
    rw [line, List.append_assoc, List.cons_append, hread, readFrom_comma hnext, Row.close,
      ih h.of_cons hfield hmore nofun]
    · simp
    · exact hmore

-- Rows that are written one after the other are read as they are.
theorem read_lines {rows : List (List String)} (hplain : ∀ row ∈ rows, Plain row)
    (hvisible : [""] ∉ rows) : read (rows.flatMap line) = ⟨rows, .betweenRows⟩ := by
  unfold read
  have hstart : Place.rowStart ≠ .quoted := nofun
  induction rows with
  | nil => rfl
  | cons row rows ih =>
    obtain ⟨hrow, hrows⟩ := List.forall_mem_cons.1 hplain
    obtain ⟨hshown, hvisible⟩ := List.ne_and_not_mem_of_not_mem_cons hvisible
    have hline : readFrom .rowStart .start (line row ++ rows.flatMap line) =
        (readFrom .rowStart .start (rows.flatMap line)).add row := by
      by_cases hsome : row = []
      · rw [hsome]
        exact readFrom_feed hstart _ _
      · exact hrow.readFrom_line hstart hsome (fun _ => hshown.symm) [] _
    rw [List.flatMap_cons, hline, ih hrows hvisible]
    rfl

namespace Record

variable {r : Record} {name text : String}

theorem date_of_column {d : Date} (h : r.column name = .ok (some text))
    (hread : Calendar.parseDate? Calendar.barFormats text = some d) : r.date name = .ok d := by
  rw [date, h]
  dsimp only [bind, Except.bind]
  rw [hread]

theorem number_of_column {x : Float} (h : r.column name = .ok (some text))
    (hread : Decimal.readFloat? text = some x) : r.number name = .ok x := by
  rw [number, h]
  dsimp only [bind, Except.bind]
  rw [readNumber, hread]

end Record

end Csv

namespace BarFile

open Text

-- How far the rows of a file can be taken up.
def reading (bytes : List UInt8) : Csv.Reading :=
  let decoded := Utf8.decodeStream bytes
  Csv.read (if decoded.flaw.isNone then decoded.text else wholeLines decoded.text)

-- The rows that are taken up, under their header.
def rows (bytes : List UInt8) : List Csv.Record :=
  Csv.records <|
    match (reading bytes).ending, (Utf8.decodeStream bytes).flaw with
    | .insideRow row, none => (reading bytes).rows ++ [row]
    | _, _ => (reading bytes).rows

-- What keeps a file from being read to its end.
def obstacle? (bytes : List UInt8) : Option Error :=
  match (reading bytes).ending, (Utf8.decodeStream bytes).flaw with
  | .longField, _ => some .longField
  | _, some e => some (.encoding e)
  | _, none => none

theorem read_eq (bytes : List UInt8) :
    read bytes = barsOf 2 (rows bytes) >>= fun bars =>
      match obstacle? bytes with
      | some e => .error e
      | none => .ok (sortBars bars) := by
  have hread : read bytes = barsOf 2 (rows bytes) >>= fun bars =>
      match (reading bytes).ending, (Utf8.decodeStream bytes).flaw with
      | .longField, _ => .error .longField
      | _, some e => .error (.encoding e)
      | _, none => .ok (sortBars bars) := rfl
  rw [hread]
  congr 1
  funext bars
  unfold obstacle?
  cases (reading bytes).ending <;> cases (Utf8.decodeStream bytes).flaw <;> rfl

-- A file can be read to its end and all of its rows are bars, which it has in this order.
structure Holds (bytes : List UInt8) (bars : List (Bar Float)) : Prop where
  whole : obstacle? bytes = none
  rows : List.Forall₂ (fun row b => row.bar = .ok b) (rows bytes) bars

-- What is wrong with a file: a first row that is no bar, or else what keeps it from being read.
inductive Flawed (bytes : List UInt8) : Error → Prop where
  | row {before after : List Csv.Record} {row : Csv.Record} {e : RowError}
      (split : rows bytes = before ++ row :: after)
      (bars : ∀ r ∈ before, ∃ b, r.bar = .ok b) (bad : row.bar = .error e) :
      Flawed bytes (.row (2 + before.length) e)
  | obstacle {e : Error} (bars : ∀ r ∈ rows bytes, ∃ b, r.bar = .ok b)
      (found : obstacle? bytes = some e) : Flawed bytes e

section Rows

variable {number : Nat} {records : List Csv.Record} {bars : List (Bar Float)} {e : Error}

theorem barsOf_cons (r : Csv.Record) :
    barsOf number (r :: records) =
      match r.bar with
      | .error e => .error (.row number e)
      | .ok b => (barsOf (number + 1) records).map (b :: ·) := by
  rw [barsOf]
  cases r.bar with
  | error e => rfl
  | ok b => cases barsOf (number + 1) records <;> rfl

theorem barsOf_eq_ok_iff :
    barsOf number records = .ok bars ↔
      List.Forall₂ (fun row b => row.bar = .ok b) records bars := by
  induction records generalizing number bars with
  | nil => simp [barsOf, eq_comm]
  | cons r records ih =>
    rw [barsOf_cons, List.forall₂_cons_left_iff]
    cases r.bar with
    | error e => simp
    | ok b =>
      simp only [← @ih (number + 1)]
      cases barsOf (number + 1) records with
      | error e => simp [Except.map]
      | ok rest => simp [Except.map, eq_comm]

-- Rows count from the number of the first one, and the first that is no bar is reported.
theorem barsOf_of_error {before after : List Csv.Record} {row : Csv.Record} {err : RowError}
    (hbefore : ∀ r ∈ before, ∃ b, r.bar = .ok b) (hbad : row.bar = .error err) :
    barsOf number (before ++ row :: after) = .error (.row (number + before.length) err) := by
  induction before generalizing number with
  | nil =>
    rw [List.nil_append, barsOf_cons, hbad]
    rfl
  | cons r before ih =>
    obtain ⟨⟨b, hb⟩, hbefore⟩ := List.forall_mem_cons.1 hbefore
    rw [List.cons_append, barsOf_cons, hb, ih hbefore, List.length_cons, Nat.add_assoc,
      Nat.add_comm 1]
    rfl

theorem exists_row_of_error (h : barsOf number records = .error e) :
    ∃ before row after err, records = before ++ row :: after ∧
      (∀ r ∈ before, ∃ b, r.bar = .ok b) ∧ row.bar = .error err := by
  induction records generalizing number with
  | nil => cases h
  | cons r records ih =>
    rw [barsOf_cons] at h
    cases hr : r.bar with
    | error err => exact ⟨[], r, records, err, rfl, List.forall_mem_nil _, hr⟩
    | ok b =>
      rw [hr] at h
      have hrest : barsOf (number + 1) records = .error e := by
        cases hrest : barsOf (number + 1) records with
        | error e' =>
          rw [hrest] at h
          cases h
          rfl
        | ok rest =>
          rw [hrest] at h
          cases h
      obtain ⟨before, row, after, err, rfl, hbefore, hbad⟩ := ih hrest
      exact ⟨r :: before, row, after, err, rfl, List.forall_mem_cons.2 ⟨⟨b, hr⟩, hbefore⟩, hbad⟩

theorem barsOf_eq_error_iff :
    barsOf number records = .error e ↔
      ∃ before row after err, records = before ++ row :: after ∧
        (∀ r ∈ before, ∃ b, r.bar = .ok b) ∧ row.bar = .error err ∧
        e = .row (number + before.length) err := by
  constructor
  · intro h
    obtain ⟨before, row, after, err, rfl, hbefore, hbad⟩ := exists_row_of_error h
    rw [barsOf_of_error hbefore hbad] at h
    cases h
    exact ⟨before, row, after, err, rfl, hbefore, hbad, rfl⟩
  · rintro ⟨before, row, after, err, rfl, hbefore, hbad, rfl⟩
    exact barsOf_of_error hbefore hbad

end Rows

-- Reading gives the bars that a file holds, by date.
theorem read_eq_ok_iff {bytes : List UInt8} {bars : List (Bar Float)} :
    read bytes = .ok bars ↔ ∃ held, Holds bytes held ∧ bars = sortBars held := by
  rw [read_eq, except_bind_eq_ok]
  constructor
  · rintro ⟨held, hheld, h⟩
    cases hwhole : obstacle? bytes with
    | some e =>
      rw [hwhole] at h
      cases h
    | none =>
      rw [hwhole] at h
      cases h
      exact ⟨held, ⟨hwhole, barsOf_eq_ok_iff.1 hheld⟩, rfl⟩
  · rintro ⟨held, hheld, rfl⟩
    exact ⟨held, barsOf_eq_ok_iff.2 hheld.rows, by rw [hheld.whole]⟩

theorem exists_bars_iff {records : List Csv.Record} :
    (∃ bars, List.Forall₂ (fun row b => row.bar = .ok b) records bars) ↔
      ∀ r ∈ records, ∃ b : Bar Float, r.bar = .ok b := by
  induction records with
  | nil => simp
  | cons r records ih =>
    rw [List.forall_mem_cons, ← ih]
    simp only [List.forall₂_cons_left_iff]
    constructor
    · rintro ⟨_, b, rest, hb, hrest, rfl⟩
      exact ⟨⟨b, hb⟩, rest, hrest⟩
    · rintro ⟨⟨b, hb⟩, rest, hrest⟩
      exact ⟨b :: rest, b, rest, hb, hrest, rfl⟩

-- It fails with what is wrong with the file.
theorem read_eq_error_iff {bytes : List UInt8} {e : Error} :
    read bytes = .error e ↔ Flawed bytes e := by
  rw [read_eq, except_bind_eq_error]
  constructor
  · rintro (h | ⟨held, hheld, h⟩)
    · obtain ⟨before, row, after, err, hsplit, hbefore, hbad, rfl⟩ := barsOf_eq_error_iff.1 h
      exact .row hsplit hbefore hbad
    · cases hfound : obstacle? bytes with
      | none =>
        rw [hfound] at h
        cases h
      | some found =>
        rw [hfound] at h
        cases h
        exact .obstacle (exists_bars_iff.1 ⟨held, barsOf_eq_ok_iff.1 hheld⟩) hfound
  · rintro (⟨hsplit, hbefore, hbad⟩ | ⟨hbars, hfound⟩)
    · exact .inl (barsOf_eq_error_iff.2 ⟨_, _, _, _, hsplit, hbefore, hbad, rfl⟩)
    · obtain ⟨held, hheld⟩ := exists_bars_iff.2 hbars
      exact .inr ⟨held, barsOf_eq_ok_iff.2 hheld, by rw [hfound]⟩

-- A file with a row that is no bar, or with bytes that are no text, is reported. One with a field
-- that is too long is not, unless a row before it is no bar.
theorem exists_reported_iff {bytes : List UInt8} :
    (∃ e, Flawed bytes e ∧ e ≠ .longField) ↔
      (∃ row ∈ rows bytes, ∃ e, row.bar = .error e) ∨ ∃ e, obstacle? bytes = some (.encoding e) := by
  have hrow : (∃ row ∈ rows bytes, ∃ e, row.bar = .error e) →
      ∃ e, Flawed bytes e ∧ e ≠ .longField := by
    rintro ⟨row, hrow, e, hbad⟩
    cases hbars : barsOf 2 (rows bytes) with
    | ok bars =>
      obtain ⟨b, hb⟩ := exists_bars_iff.1 ⟨bars, barsOf_eq_ok_iff.1 hbars⟩ row hrow
      rw [hbad] at hb
      cases hb
    | error first =>
      obtain ⟨before, row, after, err, hsplit, hbefore, hbad, -⟩ := barsOf_eq_error_iff.1 hbars
      exact ⟨_, .row hsplit hbefore hbad, nofun⟩
  constructor
  · rintro ⟨e, hflawed, hreported⟩
    cases hflawed with
    | @row before after row e hsplit hbefore hbad =>
      exact .inl ⟨row, hsplit ▸ List.mem_append_right _ List.mem_cons_self, e, hbad⟩
    | obstacle hbars hfound =>
      cases e with
      | longField => exact absurd rfl hreported
      | encoding e => exact .inr ⟨e, hfound⟩
      | row number e =>
        unfold obstacle? at hfound
        split at hfound <;> cases hfound
  · rintro (hbad | ⟨e, hfound⟩)
    · exact hrow hbad
    · by_cases hbars : ∀ r ∈ rows bytes, ∃ b : Bar Float, r.bar = .ok b
      · exact ⟨_, .obstacle hbars hfound, nofun⟩
      · simp only [not_forall] at hbars
        obtain ⟨row, hmem, hbad⟩ := hbars
        refine hrow ⟨row, hmem, ?_⟩
        cases hr : row.bar with
        | error e => exact ⟨e, rfl⟩
        | ok b => exact absurd ⟨b, hr⟩ hbad

theorem flawed_longField_iff {bytes : List UInt8} :
    Flawed bytes .longField ↔
      obstacle? bytes = some .longField ∧ ∀ row ∈ rows bytes, ∃ b : Bar Float, row.bar = .ok b := by
  constructor
  · intro h
    cases h with
    | obstacle hbars hfound => exact ⟨hfound, hbars⟩
  · rintro ⟨hfound, hbars⟩
    exact .obstacle hbars hfound

-- A file of bytes that are characters by themselves is read as they stand.
theorem reading_ascii {bytes : List UInt8} (h : ∀ b ∈ bytes, b.toNat < 0x80) :
    reading bytes = Csv.read (bytes.map Utf8.charOf) := by
  rw [reading, Utf8.decodeStream_ascii h]
  rfl

-- A file that is written row by row holds what its rows stand for.
theorem holds_lines {header : List String} {lines : List (List String)} {bars : List (Bar Float)}
    (hplain : ∀ row ∈ header :: lines, Csv.Plain row)
    (hascii : ∀ row ∈ header :: lines, ∀ field ∈ row, ∀ c ∈ field.toList, c.toNat < 0x80)
    (hseveral : ∀ row ∈ header :: lines, 1 < row.length)
    (hbars : List.Forall₂ (fun row b => (Csv.Record.ofRow header row).bar = .ok b) lines bars) :
    Holds (Utf8.bytesOf ((header :: lines).flatMap Csv.line)) bars := by
  have hline : ∀ c ∈ (header :: lines).flatMap Csv.line, c.toNat < 0x80 := by
    intro c hc
    obtain ⟨row, hrow, hc⟩ := List.mem_flatMap.1 hc
    obtain hmark | ⟨field, hfield, hc⟩ := Csv.mem_line hc
    · obtain rfl | rfl : c = ',' ∨ c = '\n' := by simpa using hmark
      all_goals decide
    · exact hascii row hrow field hfield c hc
  obtain ⟨hbytes, hchars⟩ := Utf8.bytesOf_ascii hline
  have hread : reading (Utf8.bytesOf ((header :: lines).flatMap Csv.line)) =
      ⟨header :: lines, .betweenRows⟩ := by
    rw [reading_ascii hbytes, hchars]
    exact Csv.read_lines hplain fun hblank => absurd (hseveral _ hblank) (by decide)
  have hfilled : lines.filter (fun row => !row.isEmpty) = lines := by
    refine List.filter_eq_self.2 fun row hrow => ?_
    have hlength := hseveral row (List.mem_cons_of_mem _ hrow)
    cases row with
    | nil => simp at hlength
    | cons field row => rfl
  constructor
  · rw [obstacle?, hread, Utf8.decodeStream_ascii hbytes]
  · rw [rows, hread, Csv.records, hfilled, List.forall₂_map_left_iff]
    exact hbars

-- The columns of a file without volumes.
def priceColumns : List String :=
  ["date", "open", "high", "low", "close"]

theorem bar_of_row (d : Date) {opening high low close : String} {o h l c : Float}
    (hopening : Decimal.readFloat? opening = some o) (hhigh : Decimal.readFloat? high = some h)
    (hlow : Decimal.readFloat? low = some l) (hclose : Decimal.readFloat? close = some c) :
    (Csv.Record.ofRow priceColumns [d.iso, opening, high, low, close]).bar =
      .ok ⟨d, o, h, l, c, 0⟩ := by
  rw [Csv.Record.bar, Csv.Record.date_of_column rfl (Calendar.parseDate?_iso d),
    Csv.Record.number_of_column rfl hopening, Csv.Record.number_of_column rfl hhigh,
    Csv.Record.number_of_column rfl hlow, Csv.Record.number_of_column rfl hclose]
  rfl

end BarFile

end BarReplay
