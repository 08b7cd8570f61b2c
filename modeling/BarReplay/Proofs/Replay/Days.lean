import BarReplay.Proofs.Calendar.Dates
import BarReplay.Proofs.Portfolio.Steps
import BarReplay.Replay.Engine

namespace BarReplay.Engine

open Portfolio Action

variable {α : Type} [Amount α]

-- The first half of a visit: a position is closed if its exit rule holds.
def closeIfDue (settings : Settings α) (s : Strategy α) (day : Date) (i : Instrument α)
    (index : Nat) (close : α) : Action α Unit := do
  match (← get).position? i.code with
  | some pos =>
    if wantsExit s pos i.chart index then
      let _ ← exit i.code close day settings.execution
  | none => pure ()

-- The second half: an instrument without a position is entered if there is room and a rule
-- holds.
def openIfDue (settings : Settings α) (s : Strategy α) (day : Date) (i : Instrument α)
    (index : Nat) (close : α) : Action α Unit := do
  let p ← get
  if !p.holds i.code && decide ((p.positions.length : Int) < s.maxPositions) then
    match entrySide? s settings.allowShorting i.chart index with
    | some side =>
      let _ ← enter side i.code i.exchange close day s settings.execution
    | none => pure ()

theorem visit_eq (settings : Settings α) (s : Strategy α) (day : Date) (i : Instrument α)
    (index : Nat) (close : α) :
    visit settings s day i index close =
      closeIfDue settings s day i index close >>= fun _ =>
        openIfDue settings s day i index close := by
  simp only [visit, closeIfDue, openIfDue, bind_assoc]
  congr 1
  funext p
  cases p.position? i.code with
  | none => exact (pure_bind _ _).symm
  | some pos =>
    cases hexit : wantsExit s pos i.chart index with
    | true =>
      simp only [hexit, if_true]
      rw [bind_assoc]
      rfl
    | false =>
      simp only [hexit, Bool.false_eq_true, if_false]
      exact (pure_bind _ _).symm

section Moves

variable {R : Portfolio α → Portfolio α → Prop} [IsPreorder (Portfolio α) R]
  {settings : Settings α} {s : Strategy α} {day : Date}

theorem visit_moves {i : Instrument α} {close : α}
    (hexit : Moves R (exit i.code close day settings.execution))
    (henter : ∀ side, Moves R (enter side i.code i.exchange close day s settings.execution))
    (index : Nat) : Moves R (visit settings s day i index close) := by
  have hget : Moves R (get : Action α (Portfolio α)) := .of_unchanged fun _ => rfl
  rw [visit_eq]
  refine .bind (.bind hget fun p => ?_) fun _ => .bind hget fun p => ?_
  · split
    · split
      · exact .bind hexit fun _ => .pure _
      · exact .pure _
    · exact .pure _
  · split
    · split
      · exact .bind (henter _) fun _ => .pure _
      · exact .pure _
    · exact .pure _

-- A day moves a portfolio as its sweep, its visits and its record do.
theorem replayDay_moves {instruments : List (Instrument α)}
    (hexit : ∀ code price, Moves R (exit code price day settings.execution))
    (henter : ∀ side code exchange price,
      Moves R (enter side code exchange price day s settings.execution))
    (hrecord : ∀ equity, Moves R (record day equity)) :
    Moves R (replayDay settings s instruments day) := by
  refine .bind (sweep_moves hexit) fun _ => .bind (.forIn _ _ _ fun x _ _ => ?_) fun _ => ?_
  · exact .bind (visit_moves (hexit _ _) (fun _ => henter _ _ _ _) _) fun _ => .pure _
  · refine .bind (.of_unchanged fun _ => rfl) fun p => .bind (.of_unchanged fun q => ?_) hrecord
    cases p.equity (prices (today instruments day)) <;> rfl

-- A replay moves a portfolio as its days do.
theorem replay_moves {instruments : List (Instrument α)} {days : List Date}
    (h : ∀ day ∈ days, Moves R (replayDay settings s instruments day)) :
    Moves R (replay settings s instruments days) :=
  .bind (.forIn _ _ _ fun day hday _ => .bind (h day hday) fun _ => .pure _) fun _ => .pure _

end Moves

-- What is written down between two portfolios is dated by days with a property: trades by the
-- day of their exit, points of the curve by their day.
structure Records (D : Date → Prop) (p q : Portfolio α) : Prop where
  trades : ∃ ts, q.trades = p.trades ++ ts ∧ ∀ t ∈ ts, D t.exitDate
  curve : ∃ points, q.curve = p.curve ++ points ∧ ∀ x ∈ points, D x.date

omit [Amount α] in
theorem Records.of_eq {D : Date → Prop} {p q : Portfolio α} (ht : q.trades = p.trades)
    (hc : q.curve = p.curve) : Records D p q where
  trades := ⟨[], by simp [ht], by simp⟩
  curve := ⟨[], by simp [hc], by simp⟩

instance (D : Date → Prop) : IsPreorder (Portfolio α) (Records D) where
  refl _ := .of_eq rfl rfl
  trans p q r hpq hqr := by
    obtain ⟨⟨ts, hts, hdts⟩, ⟨xs, hxs, hdxs⟩⟩ := hpq
    obtain ⟨⟨us, hus, hdus⟩, ⟨ys, hys, hdys⟩⟩ := hqr
    refine ⟨⟨ts ++ us, by rw [hus, hts, List.append_assoc], fun t ht => ?_⟩,
      ⟨xs ++ ys, by rw [hys, hxs, List.append_assoc], fun x hx => ?_⟩⟩
    · exact (List.mem_append.1 ht).elim (hdts t) (hdus t)
    · exact (List.mem_append.1 hx).elim (hdxs x) (hdys x)

theorem exit_records {D : Date → Prop} {day : Date} (hday : D day) (code : String) (price : α)
    (e : Execution α) : Moves (Records D) (exit code price day e) := by
  refine exit_moves (fun _ => .of_eq rfl rfl) fun p pos trade returned _ hsettle => ?_
  have hdate : D trade.exitDate := (closing_of_settle hsettle).exitDate.symm ▸ hday
  exact ⟨⟨[trade], rfl, by simpa using hdate⟩, ⟨[], by simp [credit, without], by simp⟩⟩

theorem enter_records {D : Date → Prop} (side : Side) (code exchange : String) (price : α)
    (day : Date) (s : Strategy α) (e : Execution α) :
    Moves (Records D) (enter side code exchange price day s e) :=
  enter_moves fun _ _ _ _ _ => .of_eq rfl rfl

omit [Amount α] in
theorem record_records {D : Date → Prop} {day : Date} (hday : D day) (equity : α) :
    Moves (Records D) (record day equity) :=
  record_moves fun _ =>
    ⟨⟨[], by simp, by simp⟩, ⟨[⟨day, equity⟩], rfl, by simpa using hday⟩⟩

-- A replay dates what it writes down by the days that it goes through.
theorem replay_records {settings : Settings α} {s : Strategy α} {instruments : List (Instrument α)}
    {D : Date → Prop} {days : List Date} (hdays : ∀ day ∈ days, D day) :
    Moves (Records D) (replay settings s instruments days) :=
  replay_moves fun day hday => replayDay_moves
    (fun code price => exit_records (hdays day hday) code price _)
    (fun side code exchange price => enter_records side code exchange price day s _)
    (record_records (hdays day hday))

variable (settings : Settings α) (s : Strategy α) (instruments : List (Instrument α))

theorem replay_nil : replay settings s instruments [] = pure () := rfl

theorem replay_cons (day : Date) (days : List Date) :
    replay settings s instruments (day :: days) =
      replayDay settings s instruments day >>= fun _ => replay settings s instruments days := by
  simp only [replay, List.forIn_cons, bind_assoc, pure_bind]

theorem replay_append (days more : List Date) :
    replay settings s instruments (days ++ more) =
      replay settings s instruments days >>= fun _ => replay settings s instruments more := by
  induction days with
  | nil => simp only [List.nil_append, replay_nil, pure_bind]
  | cons day days ih => simp only [List.cons_append, replay_cons, ih, bind_assoc]

-- A run returns what its replay leaves, if instruments have codes of their own and no day fails.
theorem run_eq_ok_iff {days : Option (List Date)} {r : Result α} :
    run settings s instruments days = .ok r ↔
      (instruments.map (·.code)).Nodup ∧ ∃ p,
        on (replay settings s instruments (days.getD (calendar instruments)))
          (Portfolio.new settings.initialCapital) = (.ok (), p) ∧
        r = ⟨s, settings, p, instruments.map (·.code),
          (instruments.head?.map (·.exchange)).getD "", []⟩ := by
  unfold run
  by_cases hcodes : (instruments.map (·.code)).Nodup
  · simp only [hcodes, not_true_eq_false, if_false, true_and, on]
    cases ExceptT.run (replay settings s instruments (days.getD (calendar instruments)))
        (Portfolio.new settings.initialCapital) with
    | mk ending p =>
      cases ending with
      | error f => simp
      | ok _ => simp [eq_comm]
  · simp [hcodes]

-- The portfolio after each day of a replay.
def history (start : Portfolio α) : List Date → List (Date × Portfolio α)
  | [] => []
  | day :: days =>
    let p := (on (replayDay settings s instruments day) start).2
    (day, p) :: history p days

-- The portfolio after the last day of a history that is not later than `d`. Before there is
-- one, it is the portfolio at the start.
def asOf (start : Portfolio α) (days : List (Date × Portfolio α)) (d : Date) : Portfolio α :=
  ((days.filter (·.1 ≤ d)).getLast?.map (·.2)).getD start

theorem history_days (start : Portfolio α) (days : List Date) :
    (history settings s instruments start days).map (·.1) = days := by
  induction days generalizing start with
  | nil => rfl
  | cons day days ih => simp [history, ih]

-- If no day fails, the last portfolio of the history is the one that the replay leaves.
theorem asOf_history {start p : Portfolio α} {days more : List Date} {d : Date}
    (hdays : ∀ day ∈ days, day ≤ d) (hmore : ∀ day ∈ more, d < day)
    (h : on (replay settings s instruments days) start = (.ok (), p)) :
    asOf start (history settings s instruments start (days ++ more)) d = p := by
  induction days generalizing start with
  | nil =>
    have hp : start = p := congrArg Prod.snd h
    have hnone : (history settings s instruments start more).filter (·.1 ≤ d) = [] := by
      refine List.filter_eq_nil_iff.2 fun x hx => ?_
      have hday : x.1 ∈ more :=
        history_days settings s instruments start more ▸ List.mem_map_of_mem hx
      simpa using hmore x.1 hday
    rw [List.nil_append, asOf, hnone, hp]
    rfl
  | cons day days ih =>
    rw [replay_cons] at h
    obtain ⟨_, q, hday, h⟩ := on_bind_eq_ok.1 h
    have hq := ih (fun e he => hdays e (List.mem_cons_of_mem _ he)) h
    simp only [asOf, List.cons_append, history, hday] at hq ⊢
    rw [List.filter_cons_of_pos (by simpa using hdays day (by simp)), List.getLast?_cons,
      Option.map_some, Option.getD_some, ← hq]
    cases (List.filter (fun x => decide (x.1 ≤ d))
      (history settings s instruments q (days ++ more))).getLast? <;> rfl

end BarReplay.Engine
