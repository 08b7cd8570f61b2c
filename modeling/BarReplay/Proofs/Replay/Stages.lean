import BarReplay.Proofs.Replay.Days

namespace BarReplay

-- The positions that an order opens: one if it is filled.
def Entry.opened {α : Type} : Entry α → List (Position α)
  | filled pos _ _ => [pos]
  | rejected _ => []

namespace Engine

open Portfolio Action

variable {α : Type} [Amount α]

-- The second half of a visit, with the positions that it opens.
def openings (settings : Settings α) (s : Strategy α) (day : Date) (i : Instrument α)
    (index : Nat) (close : α) : Action α (List (Position α)) := do
  let p ← get
  if !p.holds i.code && decide ((p.positions.length : Int) < s.maxPositions) then
    match entrySide? s settings.allowShorting i.chart index with
    | some side =>
      let entry ← enter side i.code i.exchange close day s settings.execution
      return entry.opened
    | none => return []
  else return []

-- The pieces of a day between which a portfolio can be looked at.
inductive Stage (α : Type) where
  | sweep (prices : PriceMap α) (day : Date)
  | visit (day : Date) (i : Instrument α) (index : Nat) (close : α)
  | record (prices : PriceMap α) (day : Date)

-- Goes through a stage and lists the positions that its orders open.
def Stage.perform (settings : Settings α) (s : Strategy α) :
    Stage α → Action α (List (Position α))
  | sweep prices day => do
    let _ ← Portfolio.sweep prices day settings.execution
    return []
  | visit day i index close => do
    closeIfDue settings s day i index close
    openings settings s day i index close
  | record prices day => do
    let p ← get
    Portfolio.record day (← calculated (p.equity prices))
    return []

-- Goes through stages one after the other and lists all positions that are opened.
def performAll (settings : Settings α) (s : Strategy α) :
    List (Stage α) → Action α (List (Position α))
  | [] => return []
  | stage :: stages => do
    let first ← stage.perform settings s
    let rest ← performAll settings s stages
    return first ++ rest

def visits (trading : List (Instrument α × Nat × α)) (day : Date) : List (Stage α) :=
  trading.map fun (i, index, close) => .visit day i index close

-- The stages of a day: triggers, then each instrument, then the equity.
def stagesOf (instruments : List (Instrument α)) (day : Date) : List (Stage α) :=
  .sweep (prices (today instruments day)) day ::
    (visits (today instruments day) day ++ [.record (prices (today instruments day)) day])

variable (settings : Settings α) (s : Strategy α)

theorem performAll_append (front back : List (Stage α)) :
    performAll settings s (front ++ back) = do
      let first ← performAll settings s front
      let rest ← performAll settings s back
      return first ++ rest := by
  induction front with
  | nil => simp only [List.nil_append, performAll, pure_bind, bind_pure]
  | cons stage front ih =>
    simp only [List.cons_append, performAll, ih, bind_assoc, pure_bind, List.append_assoc]

section Outcomes

variable {settings s} {stage : Stage α} {stages front back : List (Stage α)}
  {fills : List (Position α)} {p q : Portfolio α} {e : Failure}

theorem performAll_append_eq_ok :
    on (performAll settings s (front ++ back)) p = (.ok fills, q) ↔
      ∃ first rest r, on (performAll settings s front) p = (.ok first, r) ∧
        on (performAll settings s back) r = (.ok rest, q) ∧ first ++ rest = fills := by
  rw [performAll_append, on_bind_eq_ok]
  simp only [on_bind_pure_eq_ok]
  constructor
  · rintro ⟨first, r, hfirst, rest, hrest, hfills⟩
    exact ⟨first, rest, r, hfirst, hrest, hfills⟩
  · rintro ⟨first, rest, r, hfirst, hrest, hfills⟩
    exact ⟨first, r, hfirst, rest, hrest, hfills⟩

theorem performAll_append_eq_error :
    on (performAll settings s (front ++ back)) p = (.error e, q) ↔
      on (performAll settings s front) p = (.error e, q) ∨
        ∃ first r, on (performAll settings s front) p = (.ok first, r) ∧
          on (performAll settings s back) r = (.error e, q) := by
  rw [performAll_append, on_bind_eq_error]
  simp only [on_bind_pure_eq_error]

theorem performAll_singleton (stage : Stage α) :
    performAll settings s [stage] = stage.perform settings s := by
  simp only [performAll, pure_bind, List.append_nil, bind_pure]

theorem performAll_cons_eq_ok :
    on (performAll settings s (stage :: stages)) p = (.ok fills, q) ↔
      ∃ first rest r, on (stage.perform settings s) p = (.ok first, r) ∧
        on (performAll settings s stages) r = (.ok rest, q) ∧ first ++ rest = fills := by
  rw [← List.singleton_append, performAll_append_eq_ok, performAll_singleton]

theorem performAll_cons_eq_error :
    on (performAll settings s (stage :: stages)) p = (.error e, q) ↔
      on (stage.perform settings s) p = (.error e, q) ∨
        ∃ first r, on (stage.perform settings s) p = (.ok first, r) ∧
          on (performAll settings s stages) r = (.error e, q) := by
  rw [← List.singleton_append, performAll_append_eq_error, performAll_singleton]

end Outcomes

theorem visit_eq_perform (day : Date) (i : Instrument α) (index : Nat) (close : α) :
    visit settings s day i index close =
      (Stage.visit day i index close).perform settings s >>= fun _ => pure () := by
  rw [visit_eq, Stage.perform, bind_assoc]
  congr 1
  funext _
  simp only [openIfDue, openings, bind_assoc]
  congr 1
  funext p
  cases !p.holds i.code && decide ((p.positions.length : Int) < s.maxPositions) with
  | false => rfl
  | true =>
    cases entrySide? s settings.allowShorting i.chart index with
    | none => rfl
    | some side => simp only [if_true, bind_assoc, pure_bind]

theorem visits_eq_performAll (trading : List (Instrument α × Nat × α)) (day : Date) :
    (forIn trading PUnit.unit fun x _ => do
      visit settings s day x.1 x.2.1 x.2.2
      return ForInStep.yield PUnit.unit) =
      performAll settings s (visits trading day) >>= fun _ => pure PUnit.unit := by
  induction trading with
  | nil => simp only [List.forIn_nil, visits, List.map_nil, performAll, pure_bind]
  | cons x trading ih =>
    rw [List.forIn_cons]
    simp only [bind_assoc, pure_bind, ih]
    simp only [visits, List.map_cons, performAll, bind_assoc, pure_bind, visit_eq_perform]

theorem replayDay_eq_performAll (instruments : List (Instrument α)) (day : Date) :
    replayDay settings s instruments day =
      performAll settings s (stagesOf instruments day) >>= fun _ => pure () := by
  have h := visits_eq_performAll settings s (today instruments day) day
  have hunit (a : Action α Unit) : (a >>= fun _ => pure ()) = a := bind_pure a
  simp only [replayDay, stagesOf, performAll, performAll_append, Stage.perform, bind_assoc,
    pure_bind, h, hunit]

-- A replay goes through the stages of all its days.
theorem replay_eq_performAll (instruments : List (Instrument α)) (days : List Date) :
    replay settings s instruments days =
      performAll settings s (days.flatMap (stagesOf instruments)) >>= fun _ => pure () := by
  induction days with
  | nil => rfl
  | cons day days ih =>
    simp only [replay_cons, List.flatMap_cons, performAll_append, replayDay_eq_performAll, ih,
      bind_assoc, pure_bind]

-- The stages of a run over the days of a calendar, by default every day with a bar.
def stages (instruments : List (Instrument α)) (days : Option (List Date)) : List (Stage α) :=
  (days.getD (calendar instruments)).flatMap (stagesOf instruments)

-- A run that returns has gone through all its stages.
theorem performAll_of_run {instruments : List (Instrument α)} {days : Option (List Date)}
    {r : Result α} (h : run settings s instruments days = .ok r) :
    ∃ fills, on (performAll settings s (stages instruments days))
      (.new settings.initialCapital) = (.ok fills, r.portfolio) := by
  obtain ⟨-, p, hp, rfl⟩ := (run_eq_ok_iff _ _ _).1 h
  rw [replay_eq_performAll] at hp
  obtain ⟨fills, hstages, -⟩ := on_bind_pure_eq_ok.1 hp
  exact ⟨fills, hstages⟩

end Engine

end BarReplay
