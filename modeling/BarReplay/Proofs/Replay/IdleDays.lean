import BarReplay.Proofs.Portfolio.Sweeping
import BarReplay.Proofs.Replay.Reconciliation

namespace BarReplay

variable {α β γ : Type}

namespace Portfolio

open Portfolio.Action

-- The portfolio with another curve.
def withCurve (p : Portfolio α) (curve : List (EquityPoint α)) : Portfolio α :=
  { p with curve := curve }

-- The portfolio without the points of some days.
def thin (keep : Date → Bool) (p : Portfolio α) : Portfolio α :=
  p.withCurve (p.curve.filter (keep ·.date))

-- A step that neither looks at the curve nor touches it.
def Action.IgnoresCurve (a : Action α β) : Prop :=
  ∀ p curve, on a (p.withCurve curve) = ((on a p).1, (on a p).2.withCurve curve)

namespace Action.IgnoresCurve

theorem curve_eq {a : Action α β} (ha : IgnoresCurve a) (p : Portfolio α) :
    (on a p).2.curve = p.curve := by
  have h := congrArg (fun x => x.2.curve) (ha p p.curve)
  exact h

theorem pure (x : β) : IgnoresCurve (Pure.pure x : Action α β) :=
  fun _ _ => rfl

theorem get_bind {f : Portfolio α → Action α β} (hf : ∀ p, IgnoresCurve (f p))
    (hread : ∀ p curve, f (p.withCurve curve) = f p) : IgnoresCurve (get >>= f) := by
  intro p curve
  rw [on_get_bind, on_get_bind, hread]
  exact hf p p curve

theorem bind {a : Action α β} {f : β → Action α γ} (ha : IgnoresCurve a)
    (hf : ∀ x, IgnoresCurve (f x)) : IgnoresCurve (a >>= f) := by
  intro p curve
  rw [on_bind, on_bind, ha p curve]
  cases on a p with
  | mk ending q =>
    cases ending with
    | error e => rfl
    | ok x => exact hf x q curve

theorem forIn (xs : List γ) (init : β) (f : γ → β → Action α (ForInStep β))
    (hf : ∀ x ∈ xs, ∀ b, IgnoresCurve (f x b)) : IgnoresCurve (forIn xs init f) :=
  forIn_of_bind (fun _ => IgnoresCurve) .pure .bind xs init f hf

end Action.IgnoresCurve

variable [Amount α]

theorem exit_ignoresCurve (code : String) (price : α) (day : Date) (e : Execution α) :
    IgnoresCurve (exit code price day e) := by
  intro p curve
  have hposition : (p.withCurve curve).position? code = p.position? code := rfl
  rw [exit_on, exit_on, hposition]
  cases p.position? code with
  | none => rfl
  | some pos =>
    dsimp only
    cases settle pos price day e <;> rfl

theorem enter_ignoresCurve (side : Side) (code exchange : String) (price : α) (day : Date)
    (s : Strategy α) (e : Execution α) :
    IgnoresCurve (enter side code exchange price day s e) := by
  intro p curve
  have horder : quotedOrder (p.withCurve curve) side code exchange price day s e =
      quotedOrder p side code exchange price day s e := rfl
  rw [enter_on, enter_on, horder]
  cases quotedOrder p side code exchange price day s e with
  | error f => rfl
  | ok entry => cases entry <;> rfl

theorem sweep_ignoresCurve (prices : PriceMap α) (day : Date) (e : Execution α) :
    IgnoresCurve (sweep prices day e) := by
  refine .get_bind (fun _ => .bind (.forIn _ _ _ fun due _ _ => ?_) fun _ => .pure _) fun _ _ => rfl
  exact .bind (exit_ignoresCurve due.1 due.2 day e) fun _ => .pure _

end Portfolio

namespace Engine

open Portfolio Action

variable [Amount α] {settings : Settings α} {s : Strategy α} {instruments : List (Instrument α)}
  {day : Date} {days : List Date} {keep : Date → Bool} {p : Portfolio α}

theorem visits_ignoreCurve (trading : List (Instrument α × Nat × α)) :
    IgnoresCurve (performAll settings s (visits trading day)) := by
  induction trading with
  | nil => exact .pure _
  | cons x trading ih =>
    have hclose : IgnoresCurve (closeIfDue settings s day x.1 x.2.1 x.2.2) := by
      refine .get_bind (fun p => ?_) fun _ _ => rfl
      cases p.position? x.1.code with
      | none => exact .pure _
      | some pos =>
        dsimp only
        split
        · exact .bind (exit_ignoresCurve _ _ _ _) fun _ => .pure _
        · exact .pure _
    have hopen : IgnoresCurve (openings settings s day x.1 x.2.1 x.2.2) := by
      refine .get_bind (fun p => ?_) fun _ _ => rfl
      split
      · split
        · exact .bind (enter_ignoresCurve _ _ _ _ _ _ _) fun _ => .pure _
        · exact .pure _
      · exact .pure _
    exact .bind (.bind hclose fun _ => hopen) fun _ => .bind ih fun _ => .pure _

-- A day without its record: the stages that trade.
def dealings (settings : Settings α) (s : Strategy α) (instruments : List (Instrument α))
    (day : Date) : Action α (List (Position α)) := do
  let _ ← sweep (prices (today instruments day)) day settings.execution
  performAll settings s (visits (today instruments day) day)

theorem dealings_ignoreCurve : IgnoresCurve (dealings settings s instruments day) :=
  .bind (sweep_ignoresCurve _ _ _) fun _ => visits_ignoreCurve _

theorem replayDay_eq_dealings :
    replayDay settings s instruments day =
      dealings settings s instruments day >>= fun _ => get >>= fun p =>
        calculated (p.equity (prices (today instruments day))) >>= record day := by
  have h := visits_eq_performAll settings s (today instruments day) day
  simp only [replayDay, dealings, h, bind_assoc, pure_bind]

-- On a day after all others of the curve, only the numbers can fail.
theorem replayDay_on (hlater : ∀ x ∈ p.curve, x.date < day) :
    on (replayDay settings s instruments day) p =
      match on (dealings settings s instruments day) p with
      | (.error e, q) => (.error e, q)
      | (.ok _, q) =>
        match q.equity (prices (today instruments day)) with
        | .error f => (.error (.arithmetic f), q)
        | .ok equity => (.ok (), q.withCurve (q.curve ++ [⟨day, equity⟩])) := by
  have hcurve : (on (dealings settings s instruments day) p).2.curve = p.curve :=
    dealings_ignoreCurve.curve_eq p
  rw [replayDay_eq_dealings, on_bind]
  cases hdealings : on (dealings settings s instruments day) p with
  | mk ending q =>
    rw [hdealings] at hcurve
    cases ending with
    | error e => rfl
    | ok fills =>
      simp only [on_get_bind, on_calculated_bind]
      cases q.equity (prices (today instruments day)) with
      | error f => rfl
      | ok equity =>
        simp only [record_on]
        cases hlast : q.curve.getLast? with
        | none => rfl
        | some last =>
          have hlast : last.date < day := hlater last (hcurve ▸ List.mem_of_getLast? hlast)
          simp only [not_le.2 hlast, if_false]
          rfl

-- A day that is kept goes the same way without the points of the others.
theorem replayDay_thin (hday : keep day = true) (hlater : ∀ x ∈ p.curve, x.date < day) :
    on (replayDay settings s instruments day) (p.thin keep) =
      ((on (replayDay settings s instruments day) p).1,
        (on (replayDay settings s instruments day) p).2.thin keep) := by
  have hthin : ∀ x ∈ (p.thin keep).curve, x.date < day := fun x hx =>
    hlater x (List.mem_filter.1 hx).1
  have hcurve : (on (dealings settings s instruments day) p).2.curve = p.curve :=
    dealings_ignoreCurve.curve_eq p
  rw [replayDay_on hthin, replayDay_on hlater, thin, dealings_ignoreCurve p]
  cases hdealings : on (dealings settings s instruments day) p with
  | mk ending q =>
    rw [hdealings] at hcurve
    simp only at hcurve
    cases ending with
    | error e => rw [← hcurve]; rfl
    | ok fills =>
      have hequity (curve : List (EquityPoint α)) :
          (q.withCurve curve).equity (prices (today instruments day)) =
            q.equity (prices (today instruments day)) := rfl
      simp only [hequity]
      cases q.equity (prices (today instruments day)) with
      | error f => rw [← hcurve]; rfl
      | ok equity =>
        have hlast : [(⟨day, equity⟩ : EquityPoint α)].filter (keep ·.date) = [⟨day, equity⟩] :=
          List.filter_cons_of_pos hday
        simp only [thin, withCurve, List.filter_append, hlast, hcurve]

theorem sweep_nil (e : Execution α) (p : Portfolio α) :
    on (sweep [] day e) p = (.ok 0, p) :=
  sweep_none fun _ _ => rfl

theorem equity_nil (p : Portfolio α) : p.equity [] = .ok p.cash := by
  unfold Portfolio.equity
  generalize p.cash = cash
  induction p.positions with
  | nil => rfl
  | cons pos positions ih => exact ih

-- On a day without bars nothing happens, and the equity is the cash.
theorem replayDay_idle (hidle : today instruments day = []) (hlater : ∀ x ∈ p.curve, x.date < day) :
    on (replayDay settings s instruments day) p =
      (.ok (), p.withCurve (p.curve ++ [⟨day, p.cash⟩])) := by
  have hdealings : on (dealings settings s instruments day) p = (.ok [], p) := by
    rw [dealings, hidle, on_bind]
    simp only [prices, List.map_nil, sweep_nil]
    rfl
  have hequity : p.equity (prices (today instruments day)) = .ok p.cash := by
    rw [hidle]
    exact equity_nil p
  rw [replayDay_on hlater, hdealings]
  simp only [hequity]

omit [Amount α] in
theorem thin_dropped (hday : keep day = false) (p : Portfolio α) (equity : α) :
    (p.withCurve (p.curve ++ [⟨day, equity⟩])).thin keep = p.thin keep := by
  have hlast : [(⟨day, equity⟩ : EquityPoint α)].filter (keep ·.date) = [] :=
    List.filter_cons_of_neg (Bool.not_eq_true _ ▸ hday)
  simp only [thin, withCurve, List.filter_append, hlast, List.append_nil]

-- A day leaves the curve before the days that come after it, even if it fails.
theorem curve_before_of_replayDay {later : Date} (hlater : ∀ x ∈ p.curve, x.date < later)
    (hday : day < later) :
    ∀ x ∈ (on (replayDay settings s instruments day) p).2.curve, x.date < later := by
  have hrecords : Moves (Records (· = day)) (replayDay settings s instruments day) :=
    replayDay_moves (fun code price => exit_records (D := (· = day)) rfl code price _)
      (fun side code exchange price => enter_records side code exchange price day s _)
      (record_records (D := (· = day)) rfl)
  obtain ⟨-, points, hcurve, hdates⟩ := hrecords p
  rw [hcurve]
  intro x hx
  cases List.mem_append.1 hx with
  | inl hx => exact hlater x hx
  | inr hx => exact hdates x hx ▸ hday

omit [Amount α] in
theorem asOf_cons_of_le {start q : Portfolio α} {rest : List (Date × Portfolio α)} {d : Date}
    (h : day ≤ d) : asOf start ((day, q) :: rest) d = asOf q rest d := by
  rw [asOf, asOf, List.filter_cons_of_pos (by simpa using h), List.getLast?_cons]
  cases (rest.filter (·.1 ≤ d)).getLast? <;> rfl

theorem asOf_history_of_lt {start : Portfolio α} {d : Date} (h : ∀ day ∈ days, d < day) :
    asOf start (history settings s instruments start days) d = start := by
  have hnone : (history settings s instruments start days).filter (·.1 ≤ d) = [] := by
    refine List.filter_eq_nil_iff.2 fun x hx => ?_
    have hday : x.1 ∈ days := history_days settings s instruments start days ▸
      List.mem_map_of_mem hx
    simpa using h x.1 hday
  rw [asOf, hnone]
  rfl

-- Days that come in order after a curve, with no bar on those that are not kept.
structure Ahead (keep : Date → Bool) (instruments : List (Instrument α)) (p : Portfolio α)
    (days : List Date) : Prop where
  increasing : days.Pairwise (· < ·)
  later : ∀ x ∈ p.curve, ∀ day ∈ days, x.date < day
  idle : ∀ day ∈ days, keep day = false → today instruments day = []

namespace Ahead

omit [Amount α] in
theorem first (h : Ahead keep instruments p (day :: days)) : ∀ x ∈ p.curve, x.date < day :=
  fun x hx => h.later x hx day List.mem_cons_self

theorem next (h : Ahead keep instruments p (day :: days)) (settings : Settings α) (s : Strategy α) :
    Ahead keep instruments (on (replayDay settings s instruments day) p).2 days where
  increasing := h.increasing.of_cons
  later x hx d hd := by
    have hlater : ∀ y ∈ p.curve, y.date < d := fun y hy =>
      h.later y hy d (List.mem_cons_of_mem _ hd)
    exact curve_before_of_replayDay hlater ((List.pairwise_cons.1 h.increasing).1 d hd) x hx
  idle d hd := h.idle d (List.mem_cons_of_mem _ hd)

-- Days without bars can be left out of a replay: they only add points.
theorem replay_eq (h : Ahead keep instruments p days) (settings : Settings α) (s : Strategy α) :
    on (replay settings s instruments (days.filter keep)) (p.thin keep) =
      ((on (replay settings s instruments days) p).1,
        (on (replay settings s instruments days) p).2.thin keep) := by
  induction days generalizing p with
  | nil => rfl
  | cons day days ih =>
    have ih := ih (h.next settings s)
    rw [replay_cons, on_bind]
    cases hkeep : keep day with
    | true =>
      rw [List.filter_cons_of_pos hkeep, replay_cons, on_bind, replayDay_thin hkeep h.first]
      cases hq : on (replayDay settings s instruments day) p with
      | mk ending q =>
        rw [hq] at ih
        cases ending with
        | error e => rfl
        | ok _ => exact ih
    | false =>
      rw [replayDay_idle (h.idle day List.mem_cons_self hkeep) h.first] at ih ⊢
      rw [List.filter_cons_of_neg (Bool.not_eq_true _ ▸ hkeep)]
      rwa [thin_dropped hkeep] at ih

-- Before and after such days, and on them, the portfolio is what it would be without them.
theorem asOf_eq (h : Ahead keep instruments p days) (settings : Settings α) (s : Strategy α)
    (d : Date) :
    asOf (p.thin keep) (history settings s instruments (p.thin keep) (days.filter keep)) d =
      (asOf p (history settings s instruments p days) d).thin keep := by
  induction days generalizing p with
  | nil => rfl
  | cons day days ih =>
    by_cases hd : day ≤ d
    · have ih := ih (h.next settings s)
      rw [history, asOf_cons_of_le hd]
      cases hkeep : keep day with
      | true =>
        rw [List.filter_cons_of_pos hkeep, history, asOf_cons_of_le hd,
          replayDay_thin hkeep h.first]
        exact ih
      | false =>
        rw [replayDay_idle (h.idle day List.mem_cons_self hkeep) h.first] at ih ⊢
        rw [List.filter_cons_of_neg (Bool.not_eq_true _ ▸ hkeep)]
        rwa [thin_dropped hkeep] at ih
    · have hnone : ∀ e ∈ day :: days, d < e := by
        intro e he
        cases List.mem_cons.1 he with
        | inl heq => exact heq ▸ not_le.1 hd
        | inr he => exact lt_trans (not_le.1 hd) ((List.pairwise_cons.1 h.increasing).1 e he)
      rw [asOf_history_of_lt hnone, asOf_history_of_lt fun e he => hnone e (List.mem_filter.1 he).1]

end Ahead

end Engine

end BarReplay
