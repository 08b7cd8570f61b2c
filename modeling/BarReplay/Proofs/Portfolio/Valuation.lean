import BarReplay.Proofs.Portfolio.Ledger
import BarReplay.Proofs.Portfolio.Sizing

namespace BarReplay.Portfolio

open Portfolio.Action

variable {K : Type} [Field K] [LinearOrder K] [FloorRing K] [Roots K]

-- What an open position adds to the profits: the move of its price without its commission where
-- it has a price, and all that it has bound where it has none.
def openProfit (pos : Position K) : Option K → K
  | some price => pos.quantity * (price - pos.entryPrice) - pos.entryCommission
  | none => -pos.committed

theorem worth_exact (pos : Position K) (price : K) :
    pos.worth price = .ok (pos.committed + openProfit pos (some price)) := by
  refine congrArg Except.ok ?_
  simp only [Position.committed, openProfit, Int.cast_natCast]
  ring

-- The equity is the cash with all that is bound and the profits that are not realized yet.
theorem equity_exact (p : Portfolio K) (quotes : PriceMap K) :
    p.equity quotes = .ok (p.cash + (p.positions.map Position.committed).sum +
      (p.positions.map fun pos => openProfit pos (quotes.lookup pos.code)).sum) := by
  unfold Portfolio.equity
  generalize p.cash = cash
  induction p.positions generalizing cash with
  | nil => simp [pure, Except.pure]
  | cons pos positions ih =>
    rw [List.foldlM_cons]
    cases hprice : quotes.lookup pos.code with
    | none =>
      refine (ih cash).trans (congrArg Except.ok ?_)
      simp only [List.map_cons, List.sum_cons, hprice, openProfit]
      ring
    | some price =>
      refine except_bind_eq_ok.2 ⟨_, except_bind_eq_ok.2 ⟨_, worth_exact pos price, rfl⟩, ?_⟩
      refine (ih _).trans (congrArg Except.ok ?_)
      simp only [List.map_cons, List.sum_cons, hprice]
      ring

section Fills

variable {p : Portfolio K} {quotes : PriceMap K} {code exchange : String} {fill price before : K}
  {day : Date} {s : Strategy K} {e : Execution K} {side : Side} {pos : Position K} {cost fee : K}

-- Opening a position adds its own profit to the equity: what is committed stays in it.
theorem equity_book (h : order p code exchange fill day s e side = .ok (.filled pos cost fee))
    (hp : p.equity quotes = .ok before) :
    (p.book (.filled pos cost fee)).equity quotes =
      .ok (before + openProfit pos (quotes.lookup pos.code)) := by
  rw [equity_exact] at hp ⊢
  obtain rfl := Except.ok.inj hp
  refine congrArg Except.ok ?_
  simp only [book, List.map_append, List.map_cons, List.map_nil, List.sum_append, List.sum_cons,
    List.sum_nil, committed_of_filled h]
  ring

-- Closing it puts the profit of its trade in the place of its own.
theorem equity_credit (hs : p.Single) (hpos : p.position? code = some pos)
    {trade : ClosedTrade K} {returned : K}
    (hsettle : settle pos price day e = .ok (trade, returned))
    (hp : p.equity quotes = .ok before) :
    ((p.without code).credit trade returned).equity quotes =
      .ok (before + (trade.pnl - openProfit pos (quotes.lookup pos.code))) := by
  obtain ⟨_, _, hsettle', hreturned⟩ := settle_exact pos price day e
  obtain ⟨rfl, rfl⟩ := Prod.mk.inj (Except.ok.inj (hsettle'.symm.trans hsettle))
  have hcommitted := ((hs.perm hpos).map Position.committed).sum_eq
  have hprofit :=
    ((hs.perm hpos).map fun pos => openProfit pos (quotes.lookup pos.code)).sum_eq
  rw [List.map_cons, List.sum_cons] at hcommitted hprofit
  rw [equity_exact] at hp ⊢
  obtain rfl := Except.ok.inj hp
  refine congrArg Except.ok ?_
  have hcash : (p.without code).cash = p.cash := rfl
  simp only [credit, hcash, hreturned, hcommitted, hprofit]
  ring

end Fills

end BarReplay.Portfolio
