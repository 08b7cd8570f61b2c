import BarReplay.Portfolio.Fill
import BarReplay.Proofs.Except
import Mathlib.Order.Defs.Unbundled

namespace BarReplay.Portfolio

variable {α β γ : Type}

namespace Action

-- How a step ends when it is taken from a portfolio, and the portfolio that it leaves.
def on (a : Action α β) (p : Portfolio α) : Except Failure β × Portfolio α :=
  ExceptT.run a p

@[simp] theorem on_pure (x : β) (p : Portfolio α) : on (pure x) p = (.ok x, p) := rfl

@[simp] theorem on_throw (f : Failure) (p : Portfolio α) :
    on (throw f : Action α β) p = (.error f, p) := rfl

@[simp] theorem on_get (p : Portfolio α) : on get p = (.ok p, p) := rfl

@[simp] theorem on_set (p q : Portfolio α) : on (set q) p = (.ok ⟨⟩, q) := rfl

-- A step after another one starts from what the first left, and only if that ended well.
theorem on_bind (a : Action α β) (f : β → Action α γ) (p : Portfolio α) :
    on (a >>= f) p =
      match on a p with
      | (.ok x, q) => on (f x) q
      | (.error e, q) => (.error e, q) := by
  change (match ExceptT.run a p with | (r, q) => ExceptT.bindCont (m := StateM _) f r q) = _
  simp only [on]
  cases ExceptT.run a p with
  | mk r q => cases r <;> rfl

theorem on_bind_eq_ok {a : Action α β} {f : β → Action α γ} {p q : Portfolio α} {y : γ} :
    on (a >>= f) p = (.ok y, q) ↔ ∃ x r, on a p = (.ok x, r) ∧ on (f x) r = (.ok y, q) := by
  rw [on_bind]
  cases on a p with
  | mk ending r => cases ending <;> simp [and_assoc]

theorem on_bind_eq_error {a : Action α β} {f : β → Action α γ} {p q : Portfolio α} {e : Failure} :
    on (a >>= f) p = (.error e, q) ↔
      on a p = (.error e, q) ∨ ∃ x r, on a p = (.ok x, r) ∧ on (f x) r = (.error e, q) := by
  rw [on_bind]
  cases on a p with
  | mk ending r => cases ending <;> simp [and_assoc]

-- What is only made of the outcome of a step leaves its portfolio, and fails as it does.
theorem on_bind_pure_eq_ok {a : Action α β} {f : β → γ} {p q : Portfolio α} {y : γ} :
    on (a >>= fun x => pure (f x)) p = (.ok y, q) ↔ ∃ x, on a p = (.ok x, q) ∧ f x = y := by
  rw [on_bind_eq_ok]
  constructor
  · rintro ⟨x, r, hx, h⟩
    cases h
    exact ⟨x, hx, rfl⟩
  · rintro ⟨x, hx, rfl⟩
    exact ⟨x, q, hx, rfl⟩

theorem on_bind_pure_eq_error {a : Action α β} {f : β → γ} {p q : Portfolio α} {e : Failure} :
    on (a >>= fun x => pure (f x)) p = (.error e, q) ↔ on a p = (.error e, q) := by
  rw [on_bind]
  cases on a p with
  | mk ending r => cases ending <;> simp

@[simp] theorem on_get_bind (f : Portfolio α → Action α β) (p : Portfolio α) :
    on (get >>= f) p = on (f p) p := by
  rw [on_bind, on_get]

@[simp] theorem on_set_bind (q : Portfolio α) (f : PUnit → Action α β) (p : Portfolio α) :
    on (set q >>= f) p = on (f ⟨⟩) q := by
  rw [on_bind, on_set]

@[simp] theorem on_calculated_bind (r : Except Fault β) (f : β → Action α γ) (p : Portfolio α) :
    on (calculated r >>= f) p =
      match r with
      | .ok x => on (f x) p
      | .error e => (.error (.arithmetic e), p) := by
  rw [on_bind]
  cases r <;> rfl

theorem on_ite (c : Prop) [Decidable c] (a b : Action α β) (p : Portfolio α) :
    on (if c then a else b) p = if c then on a p else on b p := by
  split <;> rfl

-- A loop takes its steps one after the other, so it has what a step without effect has and what
-- two steps in a row have if both have it.
theorem forIn_of_bind (P : ∀ β : Type, Action α β → Prop)
    (hpure : ∀ {β : Type} (x : β), P β (pure x))
    (hbind : ∀ {β γ : Type} {a : Action α β} {f : β → Action α γ}, P β a → (∀ x, P γ (f x)) →
      P γ (a >>= f))
    (xs : List γ) (init : β) (f : γ → β → Action α (ForInStep β))
    (hf : ∀ x ∈ xs, ∀ b, P (ForInStep β) (f x b)) : P β (forIn xs init f) := by
  induction xs generalizing init with
  | nil => exact hpure init
  | cons x xs ih =>
    rw [List.forIn_cons]
    refine hbind (hf x List.mem_cons_self init) fun r => ?_
    cases r with
    | done b => exact hpure b
    | yield b => exact ih b fun y hy => hf y (List.mem_cons_of_mem _ hy)

-- Whatever a step does, and whether it ends well or not, `R` relates the portfolio before it
-- to the one after it.
def Moves (R : Portfolio α → Portfolio α → Prop) (a : Action α β) : Prop :=
  ∀ p, R p (on a p).2

-- A property that a portfolio has afterwards if it had it before.
def Keeps (P : Portfolio α → Prop) (p q : Portfolio α) : Prop :=
  P p → P q

instance (P : Portfolio α → Prop) : IsPreorder (Portfolio α) (Keeps P) where
  refl _ := id
  trans _ _ _ hpq hqr := hqr ∘ hpq

section Moves

variable {R : Portfolio α → Portfolio α → Prop} [IsPreorder (Portfolio α) R]

theorem Moves.of_unchanged {a : Action α β} (h : ∀ p, (on a p).2 = p) : Moves R a := by
  intro p
  rw [h]
  exact refl p

theorem Moves.pure (x : β) : Moves R (Pure.pure x) :=
  .of_unchanged fun _ => rfl

theorem Moves.bind {a : Action α β} {f : β → Action α γ} (ha : Moves R a)
    (hf : ∀ x, Moves R (f x)) : Moves R (a >>= f) := by
  intro p
  have h := ha p
  rw [on_bind]
  cases hp : on a p with
  | mk r q =>
    rw [hp] at h
    cases r with
    | error e => exact h
    | ok x => exact IsTrans.trans _ _ _ h (hf x q)

-- A loop moves a portfolio as its steps do.
theorem Moves.forIn (xs : List γ) (init : β) (f : γ → β → Action α (ForInStep β))
    (hf : ∀ x ∈ xs, ∀ b, Moves R (f x b)) : Moves R (forIn xs init f) :=
  forIn_of_bind (fun _ => Moves R) .pure .bind xs init f hf

end Moves

end Action

open Portfolio.Action

-- The portfolio without the position in an instrument.
def without (p : Portfolio α) (code : String) : Portfolio α :=
  { p with positions := p.positions.filter (·.code != code) }

theorem holds_eq_false_iff {p : Portfolio α} {code : String} :
    p.holds code = false ↔ code ∉ p.positions.map Position.code := by
  simp only [holds, position?, Option.isSome_eq_false_iff, Option.isNone_iff_eq_none,
    List.find?_eq_none, List.mem_map, not_exists, not_and, beq_iff_eq]

theorem remove_on (p : Portfolio α) (code : String) :
    on (remove code) p =
      match p.position? code with
      | none => (.error (.notOpen code), p)
      | some pos => (.ok pos, p.without code) := by
  simp only [remove, on_get_bind]
  cases p.position? code <;> rfl

theorem add_on (p : Portfolio α) (pos : Position α) :
    on (add pos) p =
      if p.holds pos.code then (.error (.alreadyOpen pos.code), p)
      else (.ok ⟨⟩, { p with positions := p.positions ++ [pos] }) := by
  simp only [add, on_get_bind]
  cases p.holds pos.code <;> rfl

theorem record_on (p : Portfolio α) (day : Date) (equity : α) :
    on (record day equity) p =
      match p.curve.getLast? with
      | some last =>
        if day ≤ last.date then (.error (.dateOrder day last.date), p)
        else (.ok ⟨⟩, { p with curve := p.curve ++ [EquityPoint.mk day equity] })
      | none => (.ok ⟨⟩, { p with curve := p.curve ++ [EquityPoint.mk day equity] }) := by
  simp only [record, on_get_bind]
  cases p.curve.getLast? with
  | none => rfl
  | some last => by_cases h : day ≤ last.date <;> simp [h]

-- A point that is recorded stands at the end of the curve.
theorem record_moves {R : Portfolio α → Portfolio α → Prop} [IsPreorder (Portfolio α) R]
    {day : Date} {equity : α}
    (h : ∀ p, R p { p with curve := p.curve ++ [EquityPoint.mk day equity] }) :
    Moves R (record day equity) := by
  intro p
  rw [record_on]
  split
  · split
    · exact refl p
    · exact h p
  · exact h p

variable [Amount α]

-- What closing a position at a quoted price makes of it: the trade, and the cash it returns.
def settle (pos : Position α) (price : α) (day : Date) (e : Execution α) :
    Except Fault (ClosedTrade α × α) := do
  let fill := if pos.isLong then e.sellPrice price else e.buyPrice price
  let size ← pos.size
  let value := size * fill
  let fee := e.commission value
  let quantity ← Amount.ofInt pos.quantity
  let pnl := quantity * (fill - pos.entryPrice) - pos.entryCommission - fee
  let returned :=
    if pos.isLong then value - fee
    else size * pos.entryPrice + (size * pos.entryPrice - value) - fee
  return ({ code := pos.code
            exchange := pos.exchange
            quantity := pos.quantity
            entryPrice := pos.entryPrice
            exitPrice := fill
            entryDate := pos.entryDate
            exitDate := day
            pnl := pnl }, returned)

-- A trade is its position, closed at a quoted price.
structure Closing (e : Execution α) (day : Date) (price : α) (pos : Position α)
    (t : ClosedTrade α) : Prop where
  code : t.code = pos.code
  exchange : t.exchange = pos.exchange
  quantity : t.quantity = pos.quantity
  entryPrice : t.entryPrice = pos.entryPrice
  entryDate : t.entryDate = pos.entryDate
  exitPrice : t.exitPrice = if pos.isLong then e.sellPrice price else e.buyPrice price
  exitDate : t.exitDate = day

theorem closing_of_settle {pos : Position α} {price : α} {day : Date} {e : Execution α}
    {trade : ClosedTrade α} {returned : α} (h : settle pos price day e = .ok (trade, returned)) :
    Closing e day price pos trade := by
  obtain ⟨size, -, h⟩ := except_bind_eq_ok.1 h
  obtain ⟨quantity, -, h⟩ := except_bind_eq_ok.1 h
  cases h
  exact ⟨rfl, rfl, rfl, rfl, rfl, rfl, rfl⟩

-- The portfolio with a trade written down and its cash returned.
def credit (p : Portfolio α) (trade : ClosedTrade α) (returned : α) : Portfolio α :=
  { p with cash := p.cash + returned, trades := p.trades ++ [trade] }

-- All that an exit can do. A position whose size no amount can hold is gone without a trade.
theorem exit_on (code : String) (price : α) (day : Date) (e : Execution α) (p : Portfolio α) :
    on (exit code price day e) p =
      match p.position? code with
      | none => (.ok none, p)
      | some pos =>
        match settle pos price day e with
        | .error f => (.error (.arithmetic f), p.without code)
        | .ok (trade, returned) => (.ok (some trade), (p.without code).credit trade returned) := by
  simp only [exit, on_get_bind, holds]
  rcases Option.eq_none_or_eq_some (p.position? code) with hp | ⟨pos, hp⟩
  · simp [hp]
  · simp only [hp, Option.isSome_some, Bool.not_true, Bool.false_eq_true, if_false,
      on_bind (remove code), remove_on, on_calculated_bind, settle]
    cases pos.size with
    | error f => rfl
    | ok size => cases (Amount.ofInt pos.quantity : Except Fault α) <;> rfl

-- An exit that ends well closes a position, or there is none.
theorem exit_ok {code : String} {price : α} {day : Date} {e : Execution α} {p q : Portfolio α}
    {x : Option (ClosedTrade α)} (h : on (exit code price day e) p = (.ok x, q)) :
    q = p ∨ ∃ pos trade returned, p.position? code = some pos ∧
      settle pos price day e = .ok (trade, returned) ∧
      q = (p.without code).credit trade returned := by
  rw [exit_on] at h
  cases hpos : p.position? code with
  | none =>
    rw [hpos] at h
    cases h
    exact .inl rfl
  | some pos =>
    simp only [hpos] at h
    cases hsettle : settle pos price day e with
    | error f =>
      rw [hsettle] at h
      cases h
    | ok result =>
      rw [hsettle] at h
      cases h
      exact .inr ⟨pos, result.1, result.2, rfl, hsettle, rfl⟩

-- An exit that fails has found a position, and does not give it back.
theorem exit_error {code : String} {price : α} {day : Date} {e : Execution α} {p q : Portfolio α}
    {f : Failure} (h : on (exit code price day e) p = (.error f, q)) :
    ∃ pos fault, p.position? code = some pos ∧ settle pos price day e = .error fault ∧
      f = .arithmetic fault ∧ q = p.without code := by
  rw [exit_on] at h
  cases hpos : p.position? code with
  | none =>
    rw [hpos] at h
    cases h
  | some pos =>
    simp only [hpos] at h
    cases hsettle : settle pos price day e with
    | error fault =>
      rw [hsettle] at h
      cases h
      exact ⟨pos, fault, rfl, hsettle, rfl, rfl⟩
    | ok result =>
      rw [hsettle] at h
      cases h

-- A position that an exit finds is taken out, with a trade or without one.
theorem exit_moves {R : Portfolio α → Portfolio α → Prop} [IsPreorder (Portfolio α) R]
    {code : String} {price : α} {day : Date} {e : Execution α}
    (hlost : ∀ p : Portfolio α, R p (p.without code))
    (hsettled : ∀ (p : Portfolio α) pos trade returned, p.position? code = some pos →
      settle pos price day e = .ok (trade, returned) →
        R p ((p.without code).credit trade returned)) :
    Moves R (exit code price day e) := by
  intro p
  rcases hexit : on (exit code price day e) p with ⟨f | x, q⟩
  · obtain ⟨-, -, -, -, -, rfl⟩ := exit_error hexit
    exact hlost p
  · obtain rfl | ⟨pos, trade, returned, hpos, hsettle, rfl⟩ := exit_ok hexit
    · exact refl q
    · exact hsettled p pos trade returned hpos hsettle

theorem exit_settled {code : String} {price : α} {day : Date} {e : Execution α} {p : Portfolio α}
    {pos : Position α} {trade : ClosedTrade α} {returned : α} (hpos : p.position? code = some pos)
    (hsettle : settle pos price day e = .ok (trade, returned)) :
    on (exit code price day e) p = (.ok (some trade), (p.without code).credit trade returned) := by
  rw [exit_on, hpos]
  simp only [hsettle]

-- The position that an order for some shares opens.
def opened (code exchange : String) (fill : α) (day : Date) (s : Strategy α) (side : Side)
    (quantity : Int) (fee : α) : Position α where
  code := code
  exchange := exchange
  quantity := side.signed quantity
  entryPrice := fill
  entryDate := day
  stopLoss := stopLossPrice s side fill
  takeProfit := takeProfitPrice s side fill
  entryCommission := fee

-- What becomes of an order at a fill price, before anything is changed.
def order (p : Portfolio α) (code exchange : String) (fill : α) (day : Date) (s : Strategy α)
    (e : Execution α) (side : Side) : Except Fault (Entry α) :=
  if p.holds code then .ok (.rejected .alreadyOpen)
  else if ¬ 0 < fill then .ok (.rejected .zeroQuantity)
  else
    match Amount.floor (p.cash * s.positionSize / fill) with
    | .error f => .error f
    | .ok quantity =>
      if quantity ≤ 0 then .ok (.rejected .zeroQuantity)
      else
        match (Amount.ofInt quantity : Except Fault α) with
        | .error f => .error f
        | .ok shares =>
          let cost := shares * fill
          let fee := e.commission cost
          if p.cash < cost + fee then .ok (.rejected .insufficientCash)
          else .ok (.filled (opened code exchange fill day s side quantity fee) cost fee)

-- The portfolio after an order: only a filled one changes it.
def book (p : Portfolio α) : Entry α → Portfolio α
  | .rejected _ => p
  | .filled pos cost fee =>
    { p with cash := p.cash - (cost + fee), positions := p.positions ++ [pos] }

theorem mem_book {p : Portfolio α} {pos x : Position α} {cost fee : α} :
    x ∈ (p.book (.filled pos cost fee)).positions ↔ x ∈ p.positions ∨ x = pos := by
  simp [book]

theorem enterAt_on (code exchange : String) (fill : α) (day : Date) (s : Strategy α)
    (e : Execution α) (side : Side) (p : Portfolio α) :
    on (enterAt code exchange fill day s e side) p =
      match order p code exchange fill day s e side with
      | .error f => (.error (.arithmetic f), p)
      | .ok entry => (.ok entry, p.book entry) := by
  simp only [enterAt, order, on_get_bind, on_ite]
  by_cases hheld : p.holds code = true
  · simp [hheld, book]
  by_cases hfill : 0 < fill
  · simp only [hheld, hfill, not_true_eq_false, if_false, on_calculated_bind, Bool.false_eq_true]
    cases Amount.floor (p.cash * s.positionSize / fill) with
    | error f => rfl
    | ok quantity =>
      by_cases hq : quantity ≤ 0
      · simp [hq, book]
      simp only [hq, if_false, on_calculated_bind, on_ite]
      cases (Amount.ofInt quantity : Except Fault α) with
      | error f => rfl
      | ok shares =>
        by_cases hcash : p.cash < shares * fill + e.commission (shares * fill)
        · simp [hcash, book]
        -- the position is added to a portfolio with less cash, which holds the same
        have hfree (cash : α) : ({ p with cash := cash } : Portfolio α).holds code = false := by
          simpa only [holds, position?, Bool.not_eq_true] using hheld
        simp only [hcash, if_false, on_set_bind, on_bind (add _), add_on, hfree, Bool.false_eq_true]
        rfl
  · simp [hheld, hfill, book]

-- What becomes of an order at a quoted price.
def quotedOrder (p : Portfolio α) (side : Side) (code exchange : String) (price : α) (day : Date)
    (s : Strategy α) (e : Execution α) : Except Fault (Entry α) :=
  if side = .short ∧ e.allowShorting = false then .ok (.rejected .shortingDisabled)
  else order p code exchange (side.entryPrice e price) day s e side

-- All that an order can do: a failure and a rejection leave the portfolio as it is.
theorem enter_on (side : Side) (code exchange : String) (price : α) (day : Date) (s : Strategy α)
    (e : Execution α) (p : Portfolio α) :
    on (enter side code exchange price day s e) p =
      match quotedOrder p side code exchange price day s e with
      | .error f => (.error (.arithmetic f), p)
      | .ok entry => (.ok entry, p.book entry) := by
  simp only [enter, quotedOrder, on_ite, enterAt_on]
  split <;> rfl

-- An entry that does not fail has booked its order.
theorem enter_ok {side : Side} {code exchange : String} {price : α} {day : Date}
    {s : Strategy α} {e : Execution α} {p q : Portfolio α} {entry : Entry α}
    (h : on (enter side code exchange price day s e) p = (.ok entry, q)) :
    quotedOrder p side code exchange price day s e = .ok entry ∧ q = p.book entry := by
  rw [enter_on] at h
  cases horder : quotedOrder p side code exchange price day s e with
  | error f =>
    rw [horder] at h
    cases h
  | ok booked =>
    rw [horder] at h
    cases h
    exact ⟨rfl, rfl⟩

-- An entry that fails has changed nothing.
theorem enter_error {side : Side} {code exchange : String} {price : α} {day : Date}
    {s : Strategy α} {e : Execution α} {p q : Portfolio α} {f : Failure}
    (h : on (enter side code exchange price day s e) p = (.error f, q)) :
    ∃ fault, quotedOrder p side code exchange price day s e = .error fault ∧
      f = .arithmetic fault ∧ q = p := by
  rw [enter_on] at h
  cases horder : quotedOrder p side code exchange price day s e with
  | error fault =>
    rw [horder] at h
    cases h
    exact ⟨fault, rfl, rfl, rfl⟩
  | ok entry =>
    rw [horder] at h
    cases h

theorem quotedOrder_filled {p : Portfolio α} {side : Side} {code exchange : String} {price : α}
    {day : Date} {s : Strategy α} {e : Execution α} {pos : Position α} {cost fee : α}
    (h : quotedOrder p side code exchange price day s e = .ok (.filled pos cost fee)) :
    (side = .short → e.allowShorting = true) ∧
      order p code exchange (side.entryPrice e price) day s e side =
        .ok (.filled pos cost fee) := by
  unfold quotedOrder at h
  split at h
  · cases h
  · rename_i hshort
    exact ⟨fun hs => by simpa [hs] using hshort, h⟩

theorem enter_filled {side : Side} {code exchange : String} {price : α} {day : Date}
    {s : Strategy α} {e : Execution α} {p q : Portfolio α} {pos : Position α} {cost fee : α}
    (h : on (enter side code exchange price day s e) p = (.ok (.filled pos cost fee), q)) :
    order p code exchange (side.entryPrice e price) day s e side = .ok (.filled pos cost fee) ∧
      q = p.book (.filled pos cost fee) := by
  obtain ⟨hquoted, hq⟩ := enter_ok h
  exact ⟨(quotedOrder_filled hquoted).2, hq⟩

-- A filled order is all that an entry does.
theorem enter_moves {R : Portfolio α → Portfolio α → Prop} [IsPreorder (Portfolio α) R]
    {side : Side} {code exchange : String} {price : α} {day : Date} {s : Strategy α}
    {e : Execution α}
    (h : ∀ (p : Portfolio α) pos cost fee,
      order p code exchange (side.entryPrice e price) day s e side = .ok (.filled pos cost fee) →
        R p (p.book (.filled pos cost fee))) :
    Moves R (enter side code exchange price day s e) := by
  intro p
  rcases henter : on (enter side code exchange price day s e) p with ⟨f | entry, q⟩
  · obtain ⟨-, -, -, rfl⟩ := enter_error henter
    exact refl q
  · cases entry with
    | rejected reason =>
      obtain ⟨-, rfl⟩ := enter_ok henter
      exact refl _
    | filled pos cost fee =>
      obtain ⟨horder, rfl⟩ := enter_filled henter
      exact h p pos cost fee horder

-- What a filled order bought: at least one share, paid for with its fee.
theorem order_filled {p : Portfolio α} {code exchange : String} {fill : α} {day : Date}
    {s : Strategy α} {e : Execution α} {side : Side} {pos : Position α} {cost fee : α}
    (h : order p code exchange fill day s e side = .ok (.filled pos cost fee)) :
    p.holds code = false ∧ 0 < fill ∧ ∃ quantity shares,
      Amount.floor (p.cash * s.positionSize / fill) = .ok quantity ∧ 0 < quantity ∧
      Amount.ofInt quantity = .ok shares ∧ cost = shares * fill ∧ fee = e.commission cost ∧
      ¬ p.cash < cost + fee ∧ pos = opened code exchange fill day s side quantity fee := by
  unfold order at h
  split at h
  · cases h
  rename_i hheld
  split at h
  · cases h
  rename_i hfill
  split at h
  · cases h
  rename_i quantity hfloor
  split at h
  · cases h
  rename_i hq
  split at h
  · cases h
  rename_i shares hshares
  simp only at h
  split at h
  · cases h
  rename_i hcash
  cases h
  exact ⟨by simpa using hheld, Classical.not_not.1 hfill, quantity, shares, hfloor, by omega, hshares, rfl,
    rfl, hcash, rfl⟩

-- A sweep closes what is due, one position after the other.
theorem sweep_moves {R : Portfolio α → Portfolio α → Prop} [IsPreorder (Portfolio α) R]
    {prices : PriceMap α} {day : Date} {e : Execution α}
    (h : ∀ code price, Moves R (exit code price day e)) : Moves R (sweep prices day e) := by
  refine .bind (.of_unchanged fun _ => rfl) fun p => .bind ?_ fun _ => .pure _
  exact .forIn _ _ _ fun due _ _ => .bind (h due.1 due.2) fun _ => .pure _

end BarReplay.Portfolio
