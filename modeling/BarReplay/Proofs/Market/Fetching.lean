import BarReplay.Market.BarDirectory
import BarReplay.Proofs.Market.Reading
import BarReplay.Proofs.Market.Sorting
import Mathlib.Order.Basic

namespace BarReplay

namespace Date

-- The day after a day is the first one that is later.
theorem next_le_iff {day next : Date} (h : day.next? = some next) {e : Date} :
    next ≤ e ↔ day < e := by
  have hnext := ofOrdinal?_eq_some_iff.1 h
  rw [← ordinal_le_ordinal_iff, ← not_le, ← ordinal_le_ordinal_iff]
  omega

theorem exists_next {day later : Date} (h : day < later) : ∃ next, day.next? = some next := by
  have hbefore := ordinal_lt_ordinal h
  obtain ⟨next, hnext⟩ := exists_ordinal (n := day.ordinal + 1) (by omega)
    (by have := later.ordinal_bounds; omega)
  exact ⟨next, ofOrdinal?_eq_some_iff.2 (by omega)⟩

end Date

namespace BarFile

-- Loading from files that stand still.
theorem load_eq (files : FileAccess Id) (path : FilePath) :
    load files path =
      match files.has path with
      | .error e => .error (.unknown e)
      | .ok false => .error (.absent path)
      | .ok true =>
        match files.read path with
        | .error e => .error (.file e)
        | .ok bytes => (read bytes).mapError .content := by
  unfold load
  match files.has path with
  | .error e => rfl
  | .ok false => rfl
  | .ok true =>
    dsimp only
    match files.read path with
    | .error e => rfl
    | .ok bytes => rfl

theorem load_lifted {σ : Type} (files : FileAccess Id) (path : FilePath) :
    load (files.lifted : FileAccess (StateM σ)) path = pure (load files path) := by
  unfold load
  change ((pure (files.has path) : StateM σ _) >>= _) = _
  rw [pure_bind]
  match files.has path with
  | .error e => rfl
  | .ok false => rfl
  | .ok true =>
    change ((pure (files.read path) : StateM σ _) >>= _) = _
    rw [pure_bind]
    match files.read path with
    | .error e => rfl
    | .ok bytes => rfl

end BarFile

namespace BarDirectory

open BarFile

variable (d : BarDirectory) (files : FileAccess Id) (code exchange : String)

-- A request for the bars between two days, on files that stand still.
def fetch (start last : Date) : Except Breakdown (Except SourceError (List (Bar Float))) :=
  (d.source files code exchange start last).run

def unreadable (d : BarDirectory) (code exchange reason : String) : SourceError :=
  .unreadable ("failed to read " ++ (d.path code exchange).text ++ ": " ++ reason)

-- What there is to say about an instrument, whatever days are asked for.
def known : Except Breakdown (Except SourceError (Option (List (Bar Float)))) :=
  (d.bars? files code exchange).run

theorem bars_lifted {σ : Type} :
    d.bars? (files.lifted : FileAccess (StateM σ)) code exchange =
      ExceptT.mk (pure (d.known files code exchange)) := by
  unfold known bars?
  dsimp only
  rw [BarFile.load_lifted]
  match BarFile.load files (d.path code exchange) with
  | .ok bars => rfl
  | .error (.absent _) => rfl
  | .error (.unknown e) => rfl
  | .error (.file e) => rfl
  | .error (.content .longField) => rfl
  | .error (.content (.row number e)) => rfl
  | .error (.content (.encoding e)) => rfl

theorem known_eq :
    d.known files code exchange =
      match files.has (d.path code exchange) with
      | .error e => .error (.file e)
      | .ok false => .ok (.ok none)
      | .ok true =>
        match files.read (d.path code exchange) with
        | .error e => .ok (.error (d.unreadable code exchange e.message))
        | .ok bytes =>
          match read bytes with
          | .ok bars => .ok (.ok (some bars))
          | .error .longField => .error .longField
          | .error e => .ok (.error (d.unreadable code exchange e.message)) := by
  unfold known bars?
  dsimp only
  rw [load_eq]
  match hhas : files.has (d.path code exchange) with
  | .error e => rfl
  | .ok false => rfl
  | .ok true =>
    match hread : files.read (d.path code exchange) with
    | .error e => rfl
    | .ok bytes =>
      match hbars : read bytes with
      | .ok bars => simp only [hbars]; rfl
      | .error .longField => simp only [hbars]; rfl
      | .error (.row number e) => simp only [hbars]; rfl
      | .error (.encoding e) => simp only [hbars]; rfl

-- The ways in which a question about an instrument ends.
inductive Known : Except Breakdown (Except SourceError (Option (List (Bar Float)))) → Prop where
  | unclear {e : FileError} (asked : files.has (d.path code exchange) = .error e) :
      Known (.error (.file e))
  | absent (asked : files.has (d.path code exchange) = .ok false) : Known (.ok (.ok none))
  | unread {e : FileError} (asked : files.has (d.path code exchange) = .ok true)
      (failed : files.read (d.path code exchange) = .error e) :
      Known (.ok (.error (d.unreadable code exchange e.message)))
  | held {bytes : List UInt8} {held : List (Bar Float)}
      (asked : files.has (d.path code exchange) = .ok true)
      (content : files.read (d.path code exchange) = .ok bytes) (holds : Holds bytes held) :
      Known (.ok (.ok (some (sortBars held))))
  | flawed {bytes : List UInt8} {e : Error}
      (asked : files.has (d.path code exchange) = .ok true)
      (content : files.read (d.path code exchange) = .ok bytes) (flawed : Flawed bytes e)
      (reported : e ≠ .longField) :
      Known (.ok (.error (d.unreadable code exchange e.message)))
  | longField {bytes : List UInt8} (asked : files.has (d.path code exchange) = .ok true)
      (content : files.read (d.path code exchange) = .ok bytes)
      (flawed : Flawed bytes .longField) : Known (.error .longField)

theorem known_eq_iff {x : Except Breakdown (Except SourceError (Option (List (Bar Float))))} :
    d.known files code exchange = x ↔ d.Known files code exchange x := by
  rw [known_eq]
  constructor
  · rintro rfl
    match hhas : files.has (d.path code exchange) with
    | .error e => exact .unclear hhas
    | .ok false => exact .absent hhas
    | .ok true =>
      match hread : files.read (d.path code exchange) with
      | .error e => exact .unread hhas hread
      | .ok bytes =>
        match hbars : read bytes with
        | .ok bars =>
          obtain ⟨held, hheld, rfl⟩ := read_eq_ok_iff.1 hbars
          simp only [hbars]
          exact .held hhas hread hheld
        | .error .longField =>
          simp only [hbars]
          exact .longField hhas hread (read_eq_error_iff.1 hbars)
        | .error (.row number e) =>
          simp only [hbars]
          exact .flawed hhas hread (read_eq_error_iff.1 hbars) nofun
        | .error (.encoding e) =>
          simp only [hbars]
          exact .flawed hhas hread (read_eq_error_iff.1 hbars) nofun
  · intro h
    cases h with
    | unclear asked => rw [asked]
    | absent asked => rw [asked]
    | unread asked failed => simp only [asked, failed]
    | held asked content holds =>
      simp only [asked, content, read_eq_ok_iff.2 ⟨_, holds, rfl⟩]
    | longField asked content flawed =>
      simp only [asked, content, read_eq_error_iff.2 flawed]
    | flawed asked content flawed reported =>
      simp only [asked, content, read_eq_error_iff.2 flawed]

variable {start last : Date}

-- The bars of the days that are asked for.
def asked (start last : Date) (bars : List (Bar Float)) : List (Bar Float) :=
  bars.filter fun b => start ≤ b.date ∧ b.date ≤ last

def answer (code exchange : String) : List (Bar Float) → Except SourceError (List (Bar Float))
  | [] => .error (.noData code exchange)
  | bars => .ok bars

-- What a request makes of the bars of an instrument.
theorem source_eq {m : Type → Type} [Monad m] (files : FileAccess m) (start last : Date) :
    d.source files code exchange start last = (do
      return (← d.bars? files code exchange).bind fun bars? =>
        answer code exchange (asked start last (bars?.getD []))) := by
  have hasked (bars : List (Bar Float)) : asked start last bars =
      bars.filter fun b => decide (start ≤ b.date) && decide (b.date ≤ last) := by
    simp only [asked, Bool.decide_and]
  unfold source
  congr 1
  funext found
  match found with
  | .error e => rfl
  | .ok bars? =>
    dsimp only [Except.bind]
    rw [hasked]
    cases (bars?.getD []).filter fun b => decide (start ≤ b.date) && decide (b.date ≤ last) <;> rfl

theorem fetch_eq (start last : Date) :
    d.fetch files code exchange start last =
      (d.known files code exchange).map fun found =>
        found.bind fun bars? => answer code exchange (asked start last (bars?.getD [])) := by
  rw [fetch, source_eq, ExceptT.run_bind]
  unfold known
  cases (d.bars? files code exchange).run <;> rfl

-- Among further effects a request is the same and has none.
theorem source_lifted {σ : Type} (start last : Date) :
    d.source (files.lifted : FileAccess (StateM σ)) code exchange start last =
      ExceptT.mk (pure (d.fetch files code exchange start last)) := by
  rw [source_eq, bars_lifted, fetch_eq]
  cases d.known files code exchange <;> rfl

section Answers

variable {d files code exchange}

-- Where it is not known what bars there are, the days that are asked for do not matter.
theorem fetch_eq_error_iff {b : Breakdown} :
    d.fetch files code exchange start last = .error b ↔
      d.known files code exchange = .error b := by
  rw [fetch_eq]
  cases d.known files code exchange <;> simp [Except.map]

theorem fetch_eq_unreadable_iff {reason : String} :
    d.fetch files code exchange start last = .ok (.error (.unreadable reason)) ↔
      d.known files code exchange = .ok (.error (.unreadable reason)) := by
  rw [fetch_eq]
  match d.known files code exchange with
  | .error b => simp [Except.map]
  | .ok (.error e) => simp [Except.map, Except.bind]
  | .ok (.ok bars?) =>
    dsimp only [Except.map, Except.bind]
    cases asked start last (bars?.getD []) <;> simp [answer]

theorem fetch_eq_ok_iff {bars : List (Bar Float)} :
    d.fetch files code exchange start last = .ok (.ok bars) ↔
      ∃ bars?, d.known files code exchange = .ok (.ok bars?) ∧
        bars = asked start last (bars?.getD []) ∧ bars ≠ [] := by
  rw [fetch_eq]
  match d.known files code exchange with
  | .error b => simp [Except.map]
  | .ok (.error e) => simp [Except.map, Except.bind]
  | .ok (.ok bars?) =>
    dsimp only [Except.map, Except.bind]
    cases hasked : asked start last (bars?.getD []) with
    | nil => simp [answer, hasked]
    | cons b rest => simp +contextual [answer, hasked, eq_comm]

theorem fetch_eq_noData_iff :
    d.fetch files code exchange start last = .ok (.error (.noData code exchange)) ↔
      ∃ bars?, d.known files code exchange = .ok (.ok bars?) ∧
        asked start last (bars?.getD []) = [] := by
  rw [fetch_eq]
  match hknown : d.known files code exchange with
  | .error b => simp [Except.map]
  | .ok (.error e) =>
    have hreason : ∃ reason, e = .unreadable reason := by
      cases (d.known_eq_iff files code exchange).1 hknown <;> exact ⟨_, rfl⟩
    obtain ⟨reason, rfl⟩ := hreason
    simp [Except.map, Except.bind]
  | .ok (.ok bars?) =>
    dsimp only [Except.map, Except.bind]
    cases hasked : asked start last (bars?.getD []) with
    | nil => simp [answer, hasked]
    | cons b rest => simp [answer, hasked]

end Answers

-- The bars of the days that are asked for are known by their order.
theorem eq_asked_iff {held bars : List (Bar Float)} :
    bars = asked start last (sortBars held) ↔
      bars.Perm (asked start last held) ∧ (bars.Pairwise fun a b => a.date ≤ b.date) ∧
        ∀ day, bars.filter (·.date = day) = (asked start last held).filter (·.date = day) := by
  have hsort : asked start last (sortBars held) = sortBars (asked start last held) :=
    (sortBars_filter _ held).symm
  rw [hsort]
  constructor
  · rintro rfl
    exact ⟨sortBars_perm _, sortBars_pairwise _, sortBars_ties _⟩
  · rintro ⟨-, hsorted, hties⟩
    exact eq_of_ordered hsorted (sortBars_pairwise _) fun day =>
      (hties day).trans (sortBars_ties _ day).symm

-- In bars by date, the days up to a day come before those that follow it.
theorem asked_split {mid next : Date} (hmid : start ≤ mid ∧ mid < last)
    (hnext : mid.next? = some next) {bars : List (Bar Float)}
    (hsorted : bars.Pairwise fun a b => a.date ≤ b.date) :
    asked start last bars = asked start mid bars ++ asked next last bars := by
  obtain ⟨hfront, hback⟩ := take_countP_eq_filter hsorted mid
  have hfront : ∀ b ∈ bars.take (bars.countP (·.date ≤ mid)), b.date ≤ mid := fun b hb => by
    rw [hfront] at hb
    simpa using (List.mem_filter.1 hb).2
  rw [← List.take_append_drop (bars.countP (·.date ≤ mid)) bars]
  generalize bars.take (bars.countP (·.date ≤ mid)) = front at hfront
  generalize bars.drop (bars.countP (·.date ≤ mid)) = back at hback
  have hearly : asked start last front = asked start mid front :=
    List.filter_congr fun b hb => by
      have hb := hfront b hb
      simp only [hb, (hb.trans_lt hmid.2).le]
  have hlate : asked start last back = asked next last back :=
    List.filter_congr fun b hb => by
      have hb := hback b hb
      simp only [Date.next_le_iff hnext, hb, (hmid.1.trans_lt hb).le]
  have hnone : asked start mid back = [] :=
    List.filter_eq_nil_iff.2 fun b hb => by simpa using fun _ => hback b hb
  have hnone' : asked next last front = [] :=
    List.filter_eq_nil_iff.2 fun b hb => by
      have hb := hfront b hb
      simp only [Date.next_le_iff hnext, not_lt.2 hb, false_and, decide_false, Bool.false_eq_true,
        not_false_eq_true]
  have happend (s l : Date) : asked s l (front ++ back) = asked s l front ++ asked s l back :=
    List.filter_append ..
  rw [happend, happend, happend, hearly, hlate, hnone, hnone', List.append_nil, List.nil_append]

-- No data counts as no bars.
def orEmpty : Except SourceError (List (Bar Float)) → Except SourceError (List (Bar Float))
  | .error (.noData ..) => .ok []
  | answer => answer

theorem orEmpty_answer (code exchange : String) (bars : List (Bar Float)) :
    orEmpty (answer code exchange bars) = .ok bars := by
  cases bars <;> rfl

section Requests

variable {d files code exchange}

theorem fetched_iff {bars : List (Bar Float)} :
    d.fetch files code exchange start last = .ok (.ok bars) ↔
      files.has (d.path code exchange) = .ok true ∧ ∃ bytes held,
        files.read (d.path code exchange) = .ok bytes ∧ Holds bytes held ∧ bars ≠ [] ∧
        bars = asked start last (sortBars held) := by
  rw [fetch_eq_ok_iff]
  constructor
  · rintro ⟨bars?, hknown, rfl, hsome⟩
    cases (d.known_eq_iff files code exchange).1 hknown with
    | absent => exact absurd rfl hsome
    | held there content holds => exact ⟨there, _, _, content, holds, hsome, rfl⟩
  · rintro ⟨there, bytes, held, content, holds, hsome, rfl⟩
    exact ⟨_, (d.known_eq_iff files code exchange).2 (.held there content holds), rfl, hsome⟩

theorem asked_eq_nil_iff {held : List (Bar Float)} :
    asked start last (sortBars held) = [] ↔ ∀ b ∈ held, ¬ (start ≤ b.date ∧ b.date ≤ last) := by
  simp only [asked, List.filter_eq_nil_iff, (sortBars_perm held).mem_iff, decide_eq_true_eq]

theorem noData_iff :
    d.fetch files code exchange start last = .ok (.error (.noData code exchange)) ↔
      files.has (d.path code exchange) = .ok false ∨
      files.has (d.path code exchange) = .ok true ∧ ∃ bytes held,
        files.read (d.path code exchange) = .ok bytes ∧ Holds bytes held ∧
        ∀ b ∈ held, ¬ (start ≤ b.date ∧ b.date ≤ last) := by
  rw [fetch_eq_noData_iff]
  constructor
  · rintro ⟨bars?, hknown, hnone⟩
    cases (d.known_eq_iff files code exchange).1 hknown with
    | absent gone => exact .inl gone
    | held there content holds =>
      exact .inr ⟨there, _, _, content, holds, asked_eq_nil_iff.1 hnone⟩
  · rintro (gone | ⟨there, bytes, held, content, holds, hnone⟩)
    · exact ⟨none, (d.known_eq_iff files code exchange).2 (.absent gone), rfl⟩
    · exact ⟨_, (d.known_eq_iff files code exchange).2 (.held there content holds),
        asked_eq_nil_iff.2 hnone⟩

theorem unreadable_iff :
    (∃ reason, d.fetch files code exchange start last = .ok (.error (.unreadable reason))) ↔
      files.has (d.path code exchange) = .ok true ∧
        ((∃ e, files.read (d.path code exchange) = .error e) ∨ ∃ bytes,
          files.read (d.path code exchange) = .ok bytes ∧
            ∃ e, Flawed bytes e ∧ e ≠ .longField) := by
  simp only [fetch_eq_unreadable_iff]
  constructor
  · rintro ⟨reason, hknown⟩
    generalize hx : (Except.ok (Except.error (SourceError.unreadable reason)) :
      Except Breakdown (Except SourceError (Option (List (Bar Float))))) = x at hknown
    cases (d.known_eq_iff files code exchange).1 hknown with
    | unread there failed => exact ⟨there, .inl ⟨_, failed⟩⟩
    | flawed there content flawed reported =>
      exact ⟨there, .inr ⟨_, content, _, flawed, reported⟩⟩
    | _ => cases hx
  · rintro ⟨there, ⟨e, failed⟩ | ⟨bytes, content, e, flawed, reported⟩⟩
    · exact ⟨_, (d.known_eq_iff files code exchange).2 (.unread there failed)⟩
    · exact ⟨_, (d.known_eq_iff files code exchange).2 (.flawed there content flawed reported)⟩

theorem longField_iff :
    d.fetch files code exchange start last = .error .longField ↔
      files.has (d.path code exchange) = .ok true ∧ ∃ bytes,
        files.read (d.path code exchange) = .ok bytes ∧ Flawed bytes .longField := by
  rw [fetch_eq_error_iff, known_eq_iff]
  constructor
  · intro h
    cases h with
    | longField there content flawed => exact ⟨there, _, content, flawed⟩
  · rintro ⟨there, bytes, content, flawed⟩
    exact .longField there content flawed

theorem unclear_iff {e : FileError} :
    d.fetch files code exchange start last = .error (.file e) ↔
      files.has (d.path code exchange) = .error e := by
  rw [fetch_eq_error_iff, known_eq_iff]
  constructor
  · intro h
    cases h with
    | unclear asked => exact asked
  · exact .unclear

theorem fetch_error_cases {e : SourceError}
    (h : d.fetch files code exchange start last = .ok (.error e)) :
    e = .noData code exchange ∨ ∃ reason, e = .unreadable reason := by
  rw [fetch_eq] at h
  match hknown : d.known files code exchange with
  | .error b =>
    rw [hknown] at h
    cases h
  | .ok (.error found) =>
    rw [hknown] at h
    cases h
    cases (d.known_eq_iff files code exchange).1 hknown <;> exact .inr ⟨_, rfl⟩
  | .ok (.ok bars?) =>
    rw [hknown] at h
    dsimp only [Except.map, Except.bind] at h
    cases hasked : asked start last (bars?.getD []) with
    | nil =>
      rw [hasked] at h
      cases h
      exact .inl rfl
    | cons b rest =>
      rw [hasked] at h
      cases h

-- A request falls into one up to a day and one for the days that follow.
theorem fetch_split {mid next : Date} (hmid : start ≤ mid ∧ mid < last)
    (hnext : mid.next? = some next) :
    (d.fetch files code exchange start last).map orEmpty = do
      let early ← (d.fetch files code exchange start mid).map orEmpty
      let late ← (d.fetch files code exchange next last).map orEmpty
      return do return (← early) ++ (← late) := by
  rw [fetch_eq, fetch_eq, fetch_eq]
  match hknown : d.known files code exchange with
  | .error b => rfl
  | .ok (.error e) =>
    obtain ⟨reason, rfl⟩ : ∃ reason, e = .unreadable reason := by
      cases (d.known_eq_iff files code exchange).1 hknown <;> exact ⟨_, rfl⟩
    rfl
  | .ok (.ok bars?) =>
    have hsorted : (bars?.getD []).Pairwise fun a b => a.date ≤ b.date := by
      cases (d.known_eq_iff files code exchange).1 hknown with
      | absent => exact .nil
      | held => exact sortBars_pairwise _
    dsimp only [Except.map, Except.bind]
    rw [orEmpty_answer, orEmpty_answer, orEmpty_answer, asked_split hmid hnext hsorted]
    rfl

end Requests

-- A request gives the bars of all rows that are dated between its days, by date and those of one
-- date by row. It finds no data where there is no file, or one without such rows, and reports a
-- file that cannot be read or that has a row which is no bar, whatever days are asked for. A field
-- that is too long, and a path of which it is not known whether it leads anywhere, end it without
-- a report. A request for days up to a day and one for those that follow make up one for all of
-- them.
theorem fetch_is_exact (d : BarDirectory) (files : FileAccess Id) (code exchange : String)
    (start last : Date) :
    let path := d.path code exchange
    let fetch := d.fetch files code exchange
    (∀ bars, fetch start last = .ok (.ok bars) ↔
      files.has path = .ok true ∧ ∃ bytes held,
        files.read path = .ok bytes ∧ BarFile.Holds bytes held ∧ bars ≠ [] ∧
        bars.Perm (asked start last held) ∧ (bars.Pairwise fun a b => a.date ≤ b.date) ∧
        ∀ day, bars.filter (·.date = day) = (asked start last held).filter (·.date = day)) ∧
    (fetch start last = .ok (.error (.noData code exchange)) ↔
      files.has path = .ok false ∨ files.has path = .ok true ∧ ∃ bytes held,
        files.read path = .ok bytes ∧ BarFile.Holds bytes held ∧
        ∀ b ∈ held, ¬ (start ≤ b.date ∧ b.date ≤ last)) ∧
    ((∃ reason, fetch start last = .ok (.error (.unreadable reason))) ↔
      files.has path = .ok true ∧ ((∃ e, files.read path = .error e) ∨ ∃ bytes,
        files.read path = .ok bytes ∧ ((∃ row ∈ BarFile.rows bytes, ∃ e, row.bar = .error e) ∨
          ∃ e, BarFile.obstacle? bytes = some (.encoding e)))) ∧
    (fetch start last = .error .longField ↔
      files.has path = .ok true ∧ ∃ bytes, files.read path = .ok bytes ∧
        BarFile.obstacle? bytes = some .longField ∧
        ∀ row ∈ BarFile.rows bytes, ∃ b, row.bar = .ok b) ∧
    (∀ e, fetch start last = .error (.file e) ↔ files.has path = .error e) ∧
    (∀ e, fetch start last = .ok (.error e) →
      e = .noData code exchange ∨ ∃ reason, e = .unreadable reason) ∧
    (∀ first end', (∀ b, fetch first end' = .error b ↔ fetch start last = .error b) ∧
      ∀ reason, fetch first end' = .ok (.error (.unreadable reason)) ↔
        fetch start last = .ok (.error (.unreadable reason))) ∧
    ∀ mid, start ≤ mid → mid < last → ∃ next, mid.next? = some next ∧
      (fetch start last).map orEmpty = do
        let early ← (fetch start mid).map orEmpty
        let late ← (fetch next last).map orEmpty
        return do return (← early) ++ (← late) := by
  intro path fetch
  refine ⟨fun bars => ?_, noData_iff, ?_, ?_, fun e => unclear_iff, fun e => fetch_error_cases,
    fun first end' => ⟨fun b => ?_, fun reason => ?_⟩, fun mid hstart hlast => ?_⟩
  · simp only [← eq_asked_iff]
    exact fetched_iff
  · simp only [← BarFile.exists_reported_iff]
    exact unreadable_iff
  · simp only [← BarFile.flawed_longField_iff]
    exact longField_iff
  · exact fetch_eq_error_iff.trans fetch_eq_error_iff.symm
  · exact fetch_eq_unreadable_iff.trans fetch_eq_unreadable_iff.symm
  · obtain ⟨next, hnext⟩ := Date.exists_next hlast
    exact ⟨next, hnext, fetch_split ⟨hstart, hlast⟩ hnext⟩

end BarDirectory

namespace BarFile

open Text

def letters : List UInt8 :=
  List.replicate (Csv.fieldLimit + 1) 97

theorem flawed_letters : Flawed letters .longField := by
  have hreading : reading letters = ⟨[], .longField⟩ := by
    rw [letters, reading_ascii fun b hb => List.eq_of_mem_replicate hb ▸ by decide,
      List.map_replicate]
    exact Csv.readFrom_letters (by decide) (by decide) .start
  refine flawed_longField_iff.2 ⟨?_, ?_⟩
  · rw [obstacle?, hreading]
  · rw [rows, hreading]
    simp [Csv.records]

-- Three days of June, not in order.
def threeDaysFile : List UInt8 :=
  let text := "date,open,high,low,close\n2024-06-05,1,1,1,3\n2024-06-03,1,1,1,1\n2024-06-04,1,1,1,2\n"
  text.toList.map fun c => UInt8.ofNat c.toNat

def threeDaysRows : List Csv.Record :=
  Csv.records (Csv.read (threeDaysFile.map Utf8.charOf)).rows

def threeDaysHeld : List (Bar Float) :=
  (barsOf 2 threeDaysRows).toOption.getD []

-- The characters are read once, and everything else starts from the rows.
theorem read_threeDaysFile :
    (Csv.read (threeDaysFile.map Utf8.charOf)).rows =
      [["date", "open", "high", "low", "close"], ["2024-06-05", "1", "1", "1", "3"],
        ["2024-06-03", "1", "1", "1", "1"], ["2024-06-04", "1", "1", "1", "2"]] ∧
    (Csv.read (threeDaysFile.map Utf8.charOf)).ending matches .betweenRows := by
  decide +kernel

theorem threeDaysRows_eq : threeDaysRows = Csv.records
    [["date", "open", "high", "low", "close"], ["2024-06-05", "1", "1", "1", "3"],
      ["2024-06-03", "1", "1", "1", "1"], ["2024-06-04", "1", "1", "1", "2"]] :=
  congrArg Csv.records read_threeDaysFile.1

theorem holds_threeDays : Holds threeDaysFile threeDaysHeld := by
  have hascii : ∀ b ∈ threeDaysFile, b.toNat < 0x80 := by decide +kernel
  have hending : (Csv.read (threeDaysFile.map Utf8.charOf)).ending = .betweenRows := by
    have h := read_threeDaysFile.2
    generalize (Csv.read (threeDaysFile.map Utf8.charOf)).ending = ending at *
    cases ending with
    | betweenRows => rfl
    | insideRow row => cases h
    | longField => cases h
  have hrows : rows threeDaysFile = threeDaysRows := by
    rw [rows, reading_ascii hascii, Utf8.decodeStream_ascii hascii, hending, threeDaysRows]
  constructor
  · rw [obstacle?, reading_ascii hascii, Utf8.decodeStream_ascii hascii, hending]
  · rw [hrows]
    exact barsOf_eq_ok_iff.1 (except_eq_ok_getD (by rw [threeDaysRows_eq]; decide) [])

end BarFile

namespace BarDirectory

-- Files of which there is one only, which cannot be written.
def onlyFile (path : FilePath) (bytes : List UInt8) : FileAccess Id where
  has q := .ok (decide (q = path))
  read q := if q = path then .ok bytes else .error (.missing q)
  list _ := .ok [path.name]
  write _ _ := .error (.failed "read-only")

def data : BarDirectory := ⟨⟨"", ["data"]⟩⟩

theorem has_onlyFile (path : FilePath) (bytes : List UInt8) :
    (onlyFile path bytes).has path = .ok true :=
  congrArg Except.ok (decide_eq_true rfl)

theorem read_onlyFile (path : FilePath) (bytes : List UInt8) :
    (onlyFile path bytes).read path = .ok bytes :=
  if_pos rfl

theorem fetch_is_exact_threeDays :
    let fetch := data.fetch (onlyFile (data.path "AAA" "X") BarFile.threeDaysFile) "AAA" "X"
    let first := june 3 (by decide)
    let mid := june 4 (by decide)
    let last := june 5 (by decide)
    first ≤ mid ∧ mid < last ∧ (∃ bars, fetch first last = .ok (.ok bars) ∧ bars.length = 3) ∧
      ∃ next, mid.next? = some next ∧ (fetch first last).map orEmpty = do
        let early ← (fetch first mid).map orEmpty
        let late ← (fetch next last).map orEmpty
        return do return (← early) ++ (← late) := by
  intro fetch first mid last
  obtain ⟨hfetched, -, -, -, -, -, -, hsplit⟩ := fetch_is_exact data
    (onlyFile (data.path "AAA" "X") BarFile.threeDaysFile) "AAA" "X" first last
  have hmid : first ≤ mid ∧ mid < last := by decide
  have hlength : (sortBars (asked first last BarFile.threeDaysHeld)).length = 3 :=
    (sortBars_perm _).length_eq.trans (by
      rw [BarFile.threeDaysHeld, BarFile.threeDaysRows_eq]
      decide)
  have hsome : sortBars (asked first last BarFile.threeDaysHeld) ≠ [] :=
    List.ne_nil_of_length_pos (by omega)
  exact ⟨hmid.1, hmid.2, ⟨_, (hfetched _).2 ⟨has_onlyFile _ _, _, _, read_onlyFile _ _,
    BarFile.holds_threeDays, hsome, sortBars_perm _, sortBars_pairwise _, sortBars_ties _⟩,
    hlength⟩, hsplit mid hmid.1 hmid.2⟩

theorem fetch_letters (start last : Date) :
    data.fetch (onlyFile (data.path "AAA" "X") BarFile.letters) "AAA" "X" start last =
      .error .longField :=
  longField_iff.2 ⟨has_onlyFile _ _, _, read_onlyFile _ _, BarFile.flawed_letters⟩

-- So a request can end without a report.
theorem fetch_breaks_down :
    ¬ ∀ (d : BarDirectory) (files : FileAccess Id) (code exchange : String) (start last : Date),
      ∃ answer, d.fetch files code exchange start last = .ok answer := by
  intro hall
  obtain ⟨answer, hanswer⟩ := hall data (onlyFile (data.path "AAA" "X") BarFile.letters) "AAA" "X"
    (june 3 (by decide)) (june 5 (by decide))
  rw [fetch_letters] at hanswer
  cases hanswer

end BarDirectory

end BarReplay
