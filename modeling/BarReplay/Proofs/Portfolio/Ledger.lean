import Mathlib.Algebra.BigOperators.Group.List.Basic
import Mathlib.Data.List.Nodup
import Mathlib.Tactic.Ring
import BarReplay.Proofs.Amount.Exact
import BarReplay.Proofs.Portfolio.Steps

namespace BarReplay

-- With keys of their own, elements are found by their keys.
theorem find?_eq_some_of_nodup {β : Type} {key : β → String} {xs : List β}
    (hkeys : (xs.map key).Nodup) {x : β} (hx : x ∈ xs) :
    xs.find? (fun y => key y == key x) = some x := by
  cases hfound : xs.find? (fun y => key y == key x) with
  | none => simpa using List.find?_eq_none.1 hfound x hx
  | some y =>
    have hkey : key y = key x := by simpa using List.find?_some hfound
    rw [List.inj_on_of_nodup_map hkeys (List.mem_of_find?_eq_some hfound) hx hkey]

-- The money that was taken out of the cash when a position was opened.
def Position.committed {K : Type} [Field K] (pos : Position K) : K :=
  pos.quantity.natAbs * pos.entryPrice + pos.entryCommission

namespace Portfolio

open Portfolio.Action

-- A call of the broker, with the prices, the day and the costs that it is given.
inductive Call (α : Type) where
  | enter (side : Side) (code exchange : String) (price : α) (day : Date) (s : Strategy α)
      (e : Execution α)
  | exit (code : String) (price : α) (day : Date) (e : Execution α)
  | sweep (prices : PriceMap α) (day : Date) (e : Execution α)

-- The portfolio after a call, however the call ends.
def Call.after {α : Type} [Amount α] (p : Portfolio α) : Call α → Portfolio α
  | enter side code exchange price day s e =>
    (on (Portfolio.enter side code exchange price day s e) p).2
  | exit code price day e => (on (Portfolio.exit code price day e) p).2
  | sweep prices day e => (on (Portfolio.sweep prices day e) p).2

-- Instruments are held at most once.
def Single {α : Type} (p : Portfolio α) : Prop :=
  (p.positions.map Position.code).Nodup

-- A position is found under its code.
theorem Single.position?_eq {α : Type} {p : Portfolio α} (hs : p.Single) {pos : Position α}
    (h : pos ∈ p.positions) : p.position? pos.code = some pos :=
  find?_eq_some_of_nodup hs h

-- Taking a position out of a portfolio that holds each instrument once takes out no other.
theorem Single.perm {α : Type} {p : Portfolio α} (hs : p.Single) {code : String}
    {pos : Position α} (h : p.position? code = some pos) :
    p.positions.Perm (pos :: (p.without code).positions) := by
  obtain ⟨hcode, before, after, hsplit, hbefore⟩ := List.find?_eq_some_iff_append.1 h
  have hcode : pos.code = code := by simpa using hcode
  have hafter : ∀ x ∈ after, x.code ≠ code := by
    intro x hx hxc
    have hn : (p.positions.map Position.code).Nodup := hs
    rw [hsplit, List.map_append, List.map_cons, List.nodup_append, List.nodup_cons] at hn
    exact hn.2.1.1 (List.mem_map.2 ⟨x, hx, hxc.trans hcode.symm⟩)
  have hrest : (p.without code).positions = before ++ after := by
    simp only [without, hsplit, List.filter_append, List.filter_cons, hcode, bne_self_eq_false,
      Bool.false_eq_true, if_false]
    rw [List.filter_eq_self.2, List.filter_eq_self.2]
    · intro x hx
      simpa using hafter x hx
    · intro x hx
      simpa using hbefore x hx
  rw [hrest, hsplit]
  exact List.perm_middle

theorem Single.without {α : Type} {p : Portfolio α} (hs : p.Single) (code : String) :
    (p.without code).Single :=
  hs.sublist (List.filter_sublist.map _)

-- Positions of other instruments stay when one is taken out.
theorem Single.sublist_without {α : Type} {p : Portfolio α} (hs : p.Single) {pos : Position α}
    {rest : List (Position α)} (h : (pos :: rest).Sublist p.positions) :
    rest.Sublist (p.without pos.code).positions := by
  have hcodes : ((pos :: rest).map Position.code).Nodup := hs.sublist (h.map _)
  rw [List.map_cons, List.nodup_cons] at hcodes
  have hkept : rest.filter (·.code != pos.code) = rest := by
    refine List.filter_eq_self.2 fun x hx => bne_iff_ne.2 fun hcode => ?_
    exact hcodes.1 (hcode ▸ List.mem_map_of_mem hx)
  exact hkept ▸ ((List.sublist_cons_self pos rest).trans h).filter _

theorem Single.append {α : Type} {p : Portfolio α} (hs : p.Single) {pos : Position α}
    (h : p.holds pos.code = false) : (p.positions ++ [pos] |>.map Position.code).Nodup := by
  rw [List.map_append, List.perm_append_comm.nodup_iff]
  exact List.nodup_cons.2 ⟨holds_eq_false_iff.1 h, hs⟩

section Exact

variable {K : Type} [Field K] [LinearOrder K] [FloorRing K] [Roots K]

-- Cash is what there was at first, with all profits, and without what is bound in positions.
structure Balanced (capital : K) (p : Portfolio K) : Prop where
  single : p.Single
  cash : p.cash =
    capital + (p.trades.map ClosedTrade.pnl).sum - (p.positions.map Position.committed).sum

theorem Balanced.new (capital : K) : Balanced capital (Portfolio.new capital) where
  single := List.nodup_nil
  cash := by simp [Portfolio.new]

-- Closing a position never fails, and it gives back what was committed with the profit. A long
-- and a short get there by formulas of their own.
theorem settle_exact (pos : Position K) (price : K) (day : Date) (e : Execution K) :
    ∃ trade returned, settle pos price day e = .ok (trade, returned) ∧
      returned = pos.committed + trade.pnl := by
  refine ⟨_, _, rfl, ?_⟩
  cases hlong : pos.isLong with
  | true =>
    have hpos : 0 < pos.quantity := of_decide_eq_true hlong
    have hq : (pos.quantity : K) = pos.quantity.natAbs := by
      rw [← Int.cast_natCast, Int.natAbs_of_nonneg hpos.le]
    simp only [if_true, Position.committed, hq, Int.cast_natCast]
    ring
  | false =>
    have hneg : pos.quantity ≤ 0 := not_lt.1 (of_decide_eq_false hlong)
    have hq : (pos.quantity : K) = -pos.quantity.natAbs := by
      rw [← Int.cast_natCast, Int.ofNat_natAbs_of_nonpos hneg]
      simp
    simp only [Bool.false_eq_true, if_false, Position.committed, hq, Int.cast_natCast]
    ring

-- A filled order commits the cash that it takes.
theorem committed_of_filled {p : Portfolio K} {code exchange : String} {fill : K} {day : Date}
    {s : Strategy K} {e : Execution K} {side : Side} {pos : Position K} {cost fee : K}
    (h : order p code exchange fill day s e side = .ok (.filled pos cost fee)) :
    pos.committed = cost + fee := by
  obtain ⟨-, -, quantity, shares, -, hq, hshares, rfl, rfl, -, rfl⟩ := order_filled h
  obtain rfl : (quantity : K) = shares := Except.ok.inj hshares
  have hsize : ((side.signed quantity).natAbs : K) = quantity := by
    have hn : ((side.signed quantity).natAbs : Int) = quantity := by
      cases side <;> simp only [Side.signed] <;> omega
    rw [← Int.cast_natCast, hn]
  simp only [Position.committed, opened, hsize]

theorem Balanced.book {capital : K} {p : Portfolio K} (hp : Balanced capital p)
    {code exchange : String} {fill : K} {day : Date} {s : Strategy K} {e : Execution K}
    {side : Side} {pos : Position K} {cost fee : K}
    (h : order p code exchange fill day s e side = .ok (.filled pos cost fee)) :
    Balanced capital (p.book (.filled pos cost fee)) where
  single := by
    obtain ⟨hfree, -, -, -, -, -, -, -, -, -, rfl⟩ := order_filled h
    exact hp.single.append hfree
  cash := by
    simp only [Portfolio.book, List.map_append, List.map_cons, List.map_nil, List.sum_append,
      List.sum_cons, List.sum_nil, committed_of_filled h, hp.cash]
    ring

theorem enter_balanced (capital : K) (side : Side) (code exchange : String) (price : K)
    (day : Date) (s : Strategy K) (e : Execution K) :
    Moves (Keeps (Balanced capital)) (enter side code exchange price day s e) :=
  enter_moves fun _ _ _ _ horder hp => hp.book horder

theorem exit_balanced (capital : K) (code : String) (price : K) (day : Date) (e : Execution K) :
    Moves (Keeps (Balanced capital)) (exit code price day e) := by
  intro p hp
  rw [exit_on]
  cases hpos : p.position? code with
  | none => exact hp
  | some pos =>
    obtain ⟨trade, returned, hsettle, hreturned⟩ := settle_exact pos price day e
    have hsum := ((hp.single.perm hpos).map Position.committed).sum_eq
    rw [List.map_cons, List.sum_cons] at hsum
    simp only [hsettle]
    refine ⟨hp.single.without code, ?_⟩
    have hcash : (p.without code).cash = p.cash := rfl
    have htrades : (p.without code).trades = p.trades := rfl
    simp only [credit, hcash, htrades, List.map_append, List.map_cons, List.map_nil,
      List.sum_append, List.sum_cons, List.sum_nil]
    rw [hp.cash, hreturned, hsum]
    ring

-- After any calls of the broker, filled or rejected, the cash is the initial capital with the
-- profits of all closed trades and without what the open positions have committed.
theorem cash_eq_after_calls (capital : K) (calls : List (Call K)) :
    let p := calls.foldl Call.after (Portfolio.new capital)
    p.cash = capital + (p.trades.map fun trade => trade.pnl).sum -
      (p.positions.map fun pos =>
        (pos.quantity.natAbs : K) * pos.entryPrice + pos.entryCommission).sum := by
  suffices h : ∀ p, Balanced capital p → Balanced capital (calls.foldl Call.after p) from
    (h _ (.new capital)).cash
  induction calls with
  | nil => exact fun _ hp => hp
  | cons call calls ih =>
    intro p hp
    refine ih _ ?_
    cases call with
    | enter side code exchange price day s e =>
      exact enter_balanced capital side code exchange price day s e p hp
    | exit code price day e => exact exit_balanced capital code price day e p hp
    | sweep prices day e =>
      exact sweep_moves (fun code price => exit_balanced capital code price day e) p hp

end Exact

end Portfolio

end BarReplay
