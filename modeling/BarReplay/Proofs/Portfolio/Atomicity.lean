import BarReplay.Proofs.Decimal.Range
import BarReplay.Proofs.Portfolio.Ledger

namespace BarReplay.Portfolio

open Portfolio.Action

-- What can be done to a portfolio: the calls of the broker, and what is done to it directly.
inductive Step (α : Type) where
  | call (c : Call α)
  | add (pos : Position α)
  | remove (code : String)
  | record (day : Date) (equity : α)

namespace Step

variable {α : Type}

-- Exits and sweeps take positions out of the portfolio to make trades of them.
def Closes : Step α → Prop
  | call (.exit ..) | call (.sweep ..) => True
  | _ => False

variable [Amount α]

def perform : Step α → Action α Unit
  | call (.enter side code exchange price day s e) => do
    let _ ← Portfolio.enter side code exchange price day s e
  | call (.exit code price day e) => do
    let _ ← Portfolio.exit code price day e
  | call (.sweep prices day e) => do
    let _ ← Portfolio.sweep prices day e
  | add pos => Portfolio.add pos
  | remove code => do
    let _ ← Portfolio.remove code
  | record day equity => Portfolio.record day equity

-- The portfolio after a step, however the step ends.
def after (p : Portfolio α) (step : Step α) : Portfolio α :=
  (on step.perform p).2

-- A step that closes nothing checks and calculates before it changes anything.
theorem unchanged_of_not_closes {step : Step α} (hstep : ¬ step.Closes) {p q : Portfolio α}
    {e : Failure} (h : on step.perform p = (.error e, q)) : q = p := by
  match step with
  | call (.enter side code exchange price day s costs) =>
    obtain ⟨-, -, -, hsame⟩ := enter_error (on_bind_pure_eq_error.1 h)
    exact hsame
  | call (.exit ..) => exact absurd trivial hstep
  | call (.sweep ..) => exact absurd trivial hstep
  | add pos =>
    rw [perform, add_on] at h
    split at h <;> cases h
    rfl
  | remove code =>
    have h := on_bind_pure_eq_error.1 h
    rw [remove_on] at h
    split at h <;> cases h
    rfl
  | record day equity =>
    rw [perform, record_on] at h
    split at h
    · split at h <;> cases h
      rfl
    · cases h

end Step

section Exits

-- More shares than a double can count, of either sign.
def Uncountable (pos : Position Float) : Prop :=
  2 ^ 1024 ≤ pos.quantity.natAbs + 2 ^ 970

theorem size_eq_error_iff {pos : Position Float} {f : Fault} :
    pos.size = .error f ↔ f = .overflow ∧ Uncountable pos := by
  rw [Uncountable, ← Int.natAbs_natCast pos.quantity.natAbs]
  exact Double.ofInt_eq_error_iff

theorem settle_of_uncountable {pos : Position Float} (h : Uncountable pos) (price : Float)
    (day : Date) (e : Execution Float) : settle pos price day e = .error .overflow := by
  rw [settle, size_eq_error_iff.2 ⟨rfl, h⟩]
  rfl

theorem settle_of_countable {pos : Position Float} (h : ¬ Uncountable pos) (price : Float)
    (day : Date) (e : Execution Float) : ∃ result, settle pos price day e = .ok result := by
  cases hsize : pos.size with
  | error f => exact absurd (size_eq_error_iff.1 hsize).2 h
  | ok size =>
    cases hquantity : (Amount.ofInt pos.quantity : Except Fault Float) with
    | error f => exact absurd (Double.ofInt_eq_error_iff.1 hquantity).2 h
    | ok quantity =>
      rw [settle, hsize, hquantity]
      exact ⟨_, rfl⟩

variable {code : String} {price : Float} {prices : PriceMap Float} {day : Date}
  {costs : Execution Float} {p q : Portfolio Float} {e : Failure}

-- An exit fails just for a position that cannot be counted, when it has already taken it out.
theorem exit_eq_error_iff :
    on (exit code price day costs) p = (.error e, q) ↔
      e = .arithmetic .overflow ∧ q = p.without code ∧
        ∃ pos, p.position? code = some pos ∧ Uncountable pos := by
  rw [exit_on]
  cases hpos : p.position? code with
  | none => simp
  | some pos =>
    by_cases h : Uncountable pos
    · simp [settle_of_uncountable h, h, eq_comm]
    · obtain ⟨result, hsettle⟩ := settle_of_countable h price day costs
      simp [hsettle, h]

theorem exit_positions (code : String) (price : Float) (day : Date) (costs : Execution Float)
    (p : Portfolio Float) :
    (on (exit code price day costs) p).2.positions ⊆ p.positions := by
  rw [exit_on]
  split
  · exact List.Subset.refl _
  · split <;> exact List.filter_subset_self _

theorem not_holds_without (p : Portfolio Float) (code : String) :
    (p.without code).holds code = false := by
  rw [holds_eq_false_iff]
  simp [without]

-- A position that a failure has lost.
structure Lost (p q : Portfolio Float) (pos : Position Float) : Prop where
  held : pos ∈ p.positions
  uncountable : Uncountable pos
  gone : q.holds pos.code = false

theorem lost_of_exit (h : on (exit code price day costs) p = (.error e, q)) :
    e = .arithmetic .overflow ∧ ∃ pos, Lost p q pos := by
  obtain ⟨he, rfl, pos, hpos, hun⟩ := exit_eq_error_iff.1 h
  have hcode : pos.code = code := by simpa using List.find?_some hpos
  exact ⟨he, pos, List.mem_of_find?_eq_some hpos, hun, hcode ▸ not_holds_without p pos.code⟩

-- The exits of a sweep that come before the one that fails only take positions out.
theorem lost_of_exits {due : List (String × Float)}
    (h : on (forIn due ⟨⟩ fun x (_ : PUnit) => do
      let _ ← exit x.1 x.2 day costs
      pure (ForInStep.yield ⟨⟩)) p = (.error e, q)) :
    e = .arithmetic .overflow ∧ ∃ pos, Lost p q pos := by
  induction due generalizing p with
  | nil => cases h
  | cons x due ih =>
    rw [List.forIn_cons, on_bind_eq_error] at h
    obtain h | ⟨step, r, h1, h⟩ := h
    · exact lost_of_exit (on_bind_pure_eq_error.1 h)
    · obtain ⟨trade, hexit, rfl⟩ := on_bind_pure_eq_ok.1 h1
      have hsubset := exit_positions x.1 x.2 day costs p
      rw [hexit] at hsubset
      obtain ⟨he, pos, hpos, hun, hgone⟩ := ih h
      exact ⟨he, pos, hsubset hpos, hun, hgone⟩

theorem lost_of_sweep (h : on (sweep prices day costs) p = (.error e, q)) :
    e = .arithmetic .overflow ∧ ∃ pos, Lost p q pos := by
  rw [sweep, on_get_bind, on_bind_pure_eq_error] at h
  exact lost_of_exits h

theorem Step.lost_of_closes {step : Step Float} (hstep : step.Closes)
    (h : on step.perform p = (.error e, q)) : e = .arithmetic .overflow ∧ ∃ pos, Lost p q pos := by
  cases step with
  | call c =>
    cases c with
    | enter => exact absurd hstep not_false
    | exit => exact lost_of_exit (on_bind_pure_eq_error.1 h)
    | sweep => exact lost_of_sweep (on_bind_pure_eq_error.1 h)
  | _ => exact absurd hstep not_false

end Exits

-- The broker opens positions that can be counted only: it has counted the shares to price them.
theorem order_countable {p : Portfolio Float} {code exchange : String} {fill : Float} {day : Date}
    {s : Strategy Float} {e : Execution Float} {side : Side} {pos : Position Float}
    {cost fee : Float} (h : order p code exchange fill day s e side = .ok (.filled pos cost fee)) :
    ¬ Uncountable pos := by
  obtain ⟨-, -, quantity, shares, -, -, hshares, -, -, -, rfl⟩ := order_filled h
  have hsame : (side.signed quantity).natAbs = quantity.natAbs := by
    cases side <;> simp only [Side.signed, Int.natAbs_neg]
  intro hun
  rw [Uncountable, opened, hsame] at hun
  have herror := Double.ofInt_eq_error_iff.2 ⟨rfl, hun⟩
  have hok : Double.ofInt quantity = .ok shares := hshares
  rw [hok] at herror
  cases herror

-- The positions that cannot be counted are among those that some steps added.
def Accounted (steps : List (Step Float)) (p : Portfolio Float) : Prop :=
  ∀ pos ∈ p.positions, Uncountable pos → Step.add pos ∈ steps

section Run

variable {steps : List (Step Float)}

theorem Accounted.new (capital : Float) : Accounted steps (Portfolio.new capital) := by
  intro pos hpos
  cases hpos

theorem Accounted.of_subset {p q : Portfolio Float} (hp : Accounted steps p)
    (h : q.positions ⊆ p.positions) : Accounted steps q :=
  fun pos hpos => hp pos (h hpos)

theorem Accounted.append {p : Portfolio Float} (hp : Accounted steps p) {pos : Position Float}
    (h : Uncountable pos → Step.add pos ∈ steps) (cash : Float) :
    Accounted steps { p with cash := cash, positions := p.positions ++ [pos] } := by
  intro x hx
  obtain hx | hx := List.mem_append.1 hx
  · exact hp x hx
  · rw [List.mem_singleton.1 hx]
    exact h

theorem enter_accounted (side : Side) (code exchange : String) (price : Float) (day : Date)
    (s : Strategy Float) (costs : Execution Float) :
    Moves (Keeps (Accounted steps)) (enter side code exchange price day s costs) :=
  enter_moves fun _ _ _ _ horder hp =>
    hp.append (fun hun => absurd hun (order_countable horder)) _

theorem exit_accounted (code : String) (price : Float) (day : Date) (costs : Execution Float) :
    Moves (Keeps (Accounted steps)) (exit code price day costs) :=
  fun p hp => hp.of_subset (exit_positions code price day costs p)

theorem add_accounted {pos : Position Float} (h : Step.add pos ∈ steps) :
    Moves (Keeps (Accounted steps)) (add pos) := by
  intro p hp
  rw [add_on]
  split
  · exact hp
  · exact hp.append (fun _ => h) p.cash

theorem remove_accounted (code : String) :
    Moves (Keeps (Accounted steps)) (remove code) := by
  intro p hp
  rw [remove_on]
  split
  · exact hp
  · exact hp.of_subset (List.filter_subset_self _)

theorem record_accounted (day : Date) (equity : Float) :
    Moves (Keeps (Accounted steps)) (record day equity) :=
  record_moves fun _ hp => hp

theorem Step.accounted {step : Step Float} (h : step ∈ steps) :
    Moves (Keeps (Accounted steps)) step.perform := by
  match step with
  | call (.enter side code exchange price day s costs) =>
    exact .bind (enter_accounted side code exchange price day s costs) fun _ => .pure _
  | call (.exit code price day costs) =>
    exact .bind (exit_accounted code price day costs) fun _ => .pure _
  | call (.sweep prices day costs) =>
    exact .bind (sweep_moves fun code price => exit_accounted code price day costs)
      fun _ => .pure _
  | add pos => exact add_accounted h
  | remove code => exact .bind (remove_accounted code) fun _ => .pure _
  | record day equity => exact record_accounted day equity

theorem accounted_of_run (capital : Float) (steps : List (Step Float)) :
    Accounted steps (steps.foldl Step.after (Portfolio.new capital)) := by
  suffices h : ∀ rest ⊆ steps, ∀ p, Accounted steps p →
      Accounted steps (rest.foldl Step.after p) from
    h steps (List.Subset.refl _) _ (.new capital)
  intro rest hrest
  induction rest with
  | nil => exact fun _ hp => hp
  | cons step rest ih =>
    obtain ⟨hstep, hrest⟩ := List.cons_subset.1 hrest
    exact fun p hp => ih hrest _ (Step.accounted hstep p hp)

-- After any steps, failed ones included, a step that fails leaves the portfolio exactly as it was
-- if a double can count the shares of every position that was added directly. Exits and sweeps
-- need this, and they only: they fail at a position without it, and lose that position.
theorem failure_changes_nothing (capital : Float) (steps : List (Step Float)) (step : Step Float)
    {e : Failure} {p q : Portfolio Float}
    (hp : steps.foldl Step.after (Portfolio.new capital) = p)
    (h : on step.perform p = (.error e, q)) :
    ((∀ pos, Step.add pos ∈ steps → pos.quantity.natAbs + 2 ^ 970 < 2 ^ 1024) → q = p) ∧
      (¬ step.Closes → q = p) ∧
      (step.Closes → e = .arithmetic .overflow ∧ ∃ pos ∈ p.positions,
        Step.add pos ∈ steps ∧ 2 ^ 1024 ≤ pos.quantity.natAbs + 2 ^ 970 ∧
          q.holds pos.code = false) := by
  have hkept (hstep : ¬ step.Closes) : q = p := Step.unchanged_of_not_closes hstep h
  have hlost (hstep : step.Closes) : e = .arithmetic .overflow ∧ ∃ pos, Lost p q pos :=
    Step.lost_of_closes hstep h
  have hadded : Accounted steps p := hp ▸ accounted_of_run capital steps
  refine ⟨fun hcount => hkept fun hstep => ?_, hkept, fun hstep => ?_⟩
  · obtain ⟨-, pos, hlost⟩ := hlost hstep
    exact (hcount pos (hadded pos hlost.held hlost.uncountable)).not_ge hlost.uncountable
  · obtain ⟨he, pos, hlost⟩ := hlost hstep
    exact ⟨he, pos, hlost.held, hadded pos hlost.held hlost.uncountable, hlost.uncountable,
      hlost.gone⟩

end Run

-- A position of more shares than there are doubles for.
def hoard : Position Float where
  code := "AAA"
  exchange := "X"
  quantity := (10 ^ 400 : Nat)
  entryPrice := 10
  entryDate := ⟨2019, 11, 4, by decide, by decide, by decide⟩
  stopLoss := 0
  takeProfit := 0
  entryCommission := 0

-- The sale of such a position at the price at which it was bought, without any costs.
def hoardSale : Step Float :=
  .call (.exit "AAA" 10 ⟨2019, 11, 5, by decide, by decide, by decide⟩ ⟨0, 0, 0, false⟩)

theorem uncountable_hoard : Uncountable hoard := by
  have hsize : hoard.quantity.natAbs = 10 ^ 400 := Int.natAbs_natCast _
  rw [Uncountable, hsize]
  decide +kernel

theorem hoardSale_fails (capital : Float) :
    let p := [Step.add hoard].foldl Step.after (Portfolio.new capital)
    on hoardSale.perform p = (.error (.arithmetic .overflow), p.without "AAA") :=
  on_bind_pure_eq_error.2 (exit_eq_error_iff.2 ⟨rfl, rfl, hoard, rfl, uncountable_hoard⟩)

theorem failure_changes_nothing_hoard :
    let p := [Step.add hoard].foldl Step.after (Portfolio.new 1000)
    on hoardSale.perform p = (.error (.arithmetic .overflow), p.without "AAA") ∧
      ∃ pos ∈ p.positions, (p.without "AAA").holds pos.code = false := by
  intro p
  have hsale := hoardSale_fails 1000
  obtain ⟨-, -, hlost⟩ := failure_changes_nothing 1000 [.add hoard] hoardSale rfl hsale
  obtain ⟨-, pos, hpos, -, -, hgone⟩ := hlost trivial
  exact ⟨hsale, pos, hpos, hgone⟩

-- So the failing sale takes the position out, and neither cash nor a trade comes of it.
theorem failure_changes_something : ¬ ∀ (capital : Float) (steps : List (Step Float))
    (step : Step Float) (e : Failure) (q : Portfolio Float),
    on step.perform (steps.foldl Step.after (Portfolio.new capital)) = (.error e, q) →
      q = steps.foldl Step.after (Portfolio.new capital) := by
  intro hall
  have hsame := hall 1000 [.add hoard] hoardSale _ _ (hoardSale_fails 1000)
  have hlength := congrArg (fun p => p.positions.length) hsame
  revert hlength
  decide

end BarReplay.Portfolio
