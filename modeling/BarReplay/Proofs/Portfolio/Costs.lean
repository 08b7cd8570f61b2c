import Mathlib.Tactic.LinearCombination
import Mathlib.Tactic.Linarith
import BarReplay.Proofs.Portfolio.Valuation

namespace BarReplay

variable {K : Type} [Field K] [LinearOrder K] [FloorRing K] [Roots K]

namespace Execution

variable (e : Execution K) (price : K)

theorem commission_exact (value : K) :
    e.commission value = e.commissionFlat + value * (e.commissionPct / 100) := by
  rw [commission, mul_div_assoc]
  simp [Amount.whole]

theorem buyPrice_eq : e.buyPrice price = price + price * (e.slippagePct / 100) := by
  rw [buyPrice, mul_add, mul_one]
  simp [Amount.whole]

theorem sellPrice_eq : e.sellPrice price = price - price * (e.slippagePct / 100) := by
  rw [sellPrice, mul_sub, mul_one]
  simp [Amount.whole]

-- Fills that cost nothing are made at the quoted price.
def Free : Prop :=
  e.slippagePct = 0 ∧ e.commissionFlat = 0 ∧ e.commissionPct = 0

variable {e}

theorem Free.commission_eq (h : e.Free) (value : K) : e.commission value = 0 := by
  rw [commission_exact, h.2.1, h.2.2, zero_div, mul_zero, add_zero]

theorem Free.buyPrice_eq (h : e.Free) : e.buyPrice price = price := by
  rw [e.buyPrice_eq, h.1, zero_div, mul_zero, add_zero]

theorem Free.sellPrice_eq (h : e.Free) : e.sellPrice price = price := by
  rw [e.sellPrice_eq, h.1, zero_div, mul_zero, sub_zero]

end Execution

namespace Portfolio

open Portfolio.Action

variable [IsStrictOrderedRing K] {p : Portfolio K} {code exchange : String} {price : K}
  {day : Date} {s : Strategy K} {e : Execution K} {side : Side} {pos : Position K}
  {cost fee returned : K} {trade : ClosedTrade K}

-- The profit of a trade is net of both commissions.
theorem settle_pnl (h : settle pos price day e = .ok (trade, returned)) :
    trade.pnl = pos.quantity * (trade.exitPrice - pos.entryPrice) - pos.entryCommission -
      e.commission (|(pos.quantity : K)| * trade.exitPrice) := by
  have hsize : ((pos.quantity.natAbs : ℤ) : K) = |(pos.quantity : K)| := by
    rw [Int.natCast_natAbs, Int.cast_abs]
  rw [← hsize]
  cases h
  rfl

section Slippage

variable (hprice : 0 ≤ price) (hslippage : 0 ≤ e.slippagePct)

include hprice hslippage

theorem abs_buyPrice_sub : |e.buyPrice price - price| = e.buyPrice price - price := by
  rw [abs_eq_self, e.buyPrice_eq, add_sub_cancel_left]
  positivity

theorem abs_sellPrice_sub : |e.sellPrice price - price| = -(e.sellPrice price - price) := by
  rw [abs_eq_neg_self, e.sellPrice_eq, sub_sub_cancel_left, neg_nonpos]
  positivity

-- Slippage moves the price of an entry against the position.
theorem entry_against (side : Side) :
    side.sign * (price - side.entryPrice e price) = -|side.entryPrice e price - price| := by
  cases side with
  | long =>
    rw [Side.sign, Side.entryPrice, abs_buyPrice_sub hprice hslippage, one_mul, neg_sub]
  | short =>
    rw [Side.sign, Side.entryPrice, abs_sellPrice_sub hprice hslippage, neg_one_mul, neg_neg,
      neg_sub]

-- And so does it the price of an exit.
theorem exit_against (h : settle pos price day e = .ok (trade, returned)) :
    pos.quantity * (trade.exitPrice - price) =
      -(|(pos.quantity : K)| * |trade.exitPrice - price|) := by
  rw [(closing_of_settle h).exitPrice]
  cases hlong : pos.isLong with
  | true =>
    have hq : 0 < pos.quantity := of_decide_eq_true hlong
    rw [if_pos rfl, abs_sellPrice_sub hprice hslippage, abs_of_pos (Int.cast_pos.2 hq)]
    ring
  | false =>
    have hq : pos.quantity ≤ 0 := not_lt.1 (of_decide_eq_false hlong)
    rw [if_neg Bool.false_ne_true, abs_buyPrice_sub hprice hslippage,
      abs_of_nonpos (Int.cast_nonpos.2 hq)]
    ring

theorem openProfit_filled
    (h : order p code exchange (side.entryPrice e price) day s e side =
      .ok (.filled pos cost fee)) :
    openProfit pos (some price) = -fee - |(pos.quantity : K)| * |pos.entryPrice - price| := by
  obtain ⟨-, -, shares, -, -, hshares, -, -, -, -, rfl⟩ := order_filled h
  have hsize : |(side.signed shares : K)| = shares := side.abs_cast_signed hshares
  have hmove : (side.signed shares : K) * (price - side.entryPrice e price) =
      -(shares * |side.entryPrice e price - price|) := by
    rw [Side.cast_signed, mul_comm side.sign, mul_assoc, entry_against hprice hslippage, mul_neg]
  simp only [openProfit, opened, hsize, hmove]
  ring

theorem pnl_sub_openProfit (h : settle pos price day e = .ok (trade, returned)) :
    trade.pnl - openProfit pos (some price) =
      -e.commission (|(pos.quantity : K)| * trade.exitPrice) -
        |(pos.quantity : K)| * |trade.exitPrice - price| := by
  have hmove := exit_against hprice hslippage h
  rw [settle_pnl h, openProfit]
  linear_combination hmove

end Slippage

-- Opening and closing at the same quote costs both commissions and the slippage twice.
theorem roundTrip_pnl
    (horder : order p code exchange (side.entryPrice e price) day s e side =
      .ok (.filled pos cost fee))
    {later : Date} (hsettle : settle pos price later e = .ok (trade, returned)) :
    trade.pnl = -(2 * (e.commissionFlat +
      |(pos.quantity : K)| * price * (e.slippagePct / 100 + e.commissionPct / 100))) := by
  obtain ⟨-, -, shares, _, -, hpositive, hshares, rfl, rfl, -, rfl⟩ := order_filled horder
  obtain rfl := Except.ok.inj hshares
  have hsize : |(side.signed shares : K)| = shares := side.abs_cast_signed hpositive
  rw [settle_pnl hsettle, (closing_of_settle hsettle).exitPrice]
  simp only [isLong_opened hpositive, e.commission_exact]
  simp only [opened, hsize]
  rw [side.cast_signed]
  cases side with
  | long =>
    simp only [if_true, Side.sign, Side.entryPrice, e.buyPrice_eq, e.sellPrice_eq]
    ring
  | short =>
    simp only [reduceCtorEq, if_false, Side.sign, Side.entryPrice, e.buyPrice_eq, e.sellPrice_eq]
    ring

-- Of two parts of a whole that are not negative, the product is more than the sum only if both are
-- more than the whole.
theorem both_exceed {flat value a b : K} (hflat : 0 ≤ flat) (hvalue : 0 ≤ value) (ha : 0 ≤ a)
    (hb : 0 ≤ b) (h : flat + value * (a + b) < value * (a * b)) : 1 < a ∧ 1 < b := by
  have hsum : value * (a + b) < value * (a * b) := lt_of_le_of_lt (by linarith) h
  have hproduct : a + b < a * b := lt_of_mul_lt_mul_left hsum hvalue
  constructor
  · by_contra hle
    have := mul_le_of_le_one_left hb (not_lt.1 hle)
    linarith
  · by_contra hle
    have := mul_le_of_le_one_right ha (not_lt.1 hle)
    linarith

section Signs

variable (hprice : 0 ≤ price) (hslippage : 0 ≤ e.slippagePct) (hflat : 0 ≤ e.commissionFlat)
  (hpct : 0 ≤ e.commissionPct)

include hflat hpct

theorem fee_nonneg {fill : K}
    (h : order p code exchange fill day s e side = .ok (.filled pos cost fee)) : 0 ≤ fee := by
  obtain ⟨-, hfill, shares, _, -, hpositive, hshares, rfl, rfl, -, -⟩ := order_filled h
  obtain rfl := Except.ok.inj hshares
  have hcast : (0 : K) < shares := Int.cast_pos.2 hpositive
  rw [e.commission_exact]
  positivity

include hprice hslippage

-- A sale below zero earns its percentage instead of paying it. What is gained so is more than what
-- slippage takes only if the product of the percentages is more than their sum.
theorem exit_gains_iff (h : settle pos price day e = .ok (trade, returned)) :
    0 < trade.pnl - openProfit pos (some price) ↔
      pos.isLong = true ∧
        e.commissionFlat + |(pos.quantity : K)| * price *
            (e.slippagePct / 100 + e.commissionPct / 100) <
          |(pos.quantity : K)| * price * (e.slippagePct / 100 * (e.commissionPct / 100)) := by
  rw [pnl_sub_openProfit hprice hslippage h, (closing_of_settle h).exitPrice,
    e.commission_exact]
  cases pos.isLong with
  | true =>
    rw [if_pos rfl, abs_sellPrice_sub hprice hslippage, e.sellPrice_eq, and_iff_right rfl]
    rw [← sub_pos (a := |(pos.quantity : K)| * price * _)]
    refine iff_of_eq (congrArg (0 < ·) ?_)
    ring
  | false =>
    have hcost : 0 ≤ e.commissionFlat + |(pos.quantity : K)| * e.buyPrice price *
        (e.commissionPct / 100) + |(pos.quantity : K)| * |e.buyPrice price - price| := by
      rw [e.buyPrice_eq]
      positivity
    rw [if_neg Bool.false_ne_true]
    refine iff_of_false (not_lt.2 ?_) fun hlong => Bool.false_ne_true hlong.1
    rw [← neg_add']
    exact neg_nonpos.2 hcost

section Quoted

variable {quotes : PriceMap K} {before : K}

theorem equity_of_entry (hquote : quotes.lookup code = some price)
    (h : order p code exchange (side.entryPrice e price) day s e side =
      .ok (.filled pos cost fee))
    (hbefore : p.equity quotes = .ok before) :
    ∃ after, (p.book (.filled pos cost fee)).equity quotes = .ok after ∧
      after = before - fee - |(pos.quantity : K)| * |pos.entryPrice - price| ∧
      after ≤ before ∧ (e.Free → after = before) := by
  have hbuys := buys_of_order h
  have hafter := equity_book h hbefore
  rw [hbuys.code_eq, hquote, openProfit_filled hprice hslippage h] at hafter
  refine ⟨_, hafter, by ring, ?_, fun hfree => ?_⟩
  · have hfee := fee_nonneg hflat hpct h
    have hslip : 0 ≤ |(pos.quantity : K)| * |pos.entryPrice - price| := by positivity
    linarith
  · have hentry : pos.entryPrice = price := by
      rw [hbuys.entryPrice]
      cases side with
      | long => exact hfree.buyPrice_eq price
      | short => exact hfree.sellPrice_eq price
    have hnone : fee = 0 := by
      rw [hbuys.fee_eq, hfree.2.1, hfree.2.2, mul_zero, zero_div, add_zero]
    rw [hnone, hentry, sub_self, abs_zero, mul_zero, neg_zero, sub_zero, add_zero]

theorem equity_of_exit (hquote : quotes.lookup pos.code = some price) (hs : p.Single)
    (hheld : p.position? pos.code = some pos)
    (h : settle pos price day e = .ok (trade, returned))
    (hbefore : p.equity quotes = .ok before) :
    ∃ after, ((p.without pos.code).credit trade returned).equity quotes = .ok after ∧
      after = before - e.commission (|(pos.quantity : K)| * trade.exitPrice) -
        |(pos.quantity : K)| * |trade.exitPrice - price| ∧
      (before < after ↔ pos.isLong = true ∧
        e.commissionFlat + |(pos.quantity : K)| * price *
            (e.slippagePct / 100 + e.commissionPct / 100) <
          |(pos.quantity : K)| * price * (e.slippagePct / 100 * (e.commissionPct / 100))) ∧
      (before < after → 100 < e.slippagePct ∧ 100 < e.commissionPct) ∧
      (e.Free → after = before) := by
  have hafter := equity_credit hs hheld h hbefore
  rw [hquote] at hafter
  have hgains := exit_gains_iff hprice hslippage hflat hpct h
  rw [← lt_add_iff_pos_right] at hgains
  refine ⟨_, hafter, ?_, hgains, fun hmore => ?_, fun hfree => ?_⟩
  · rw [pnl_sub_openProfit hprice hslippage h]
    ring
  · obtain ⟨hslip, hfee⟩ := both_exceed hflat (by positivity) (by positivity) (by positivity)
      (hgains.1 hmore).2
    rw [one_lt_div (by norm_num)] at hslip hfee
    exact ⟨hslip, hfee⟩
  · have hexit : trade.exitPrice = price := by
      rw [(closing_of_settle h).exitPrice, hfree.sellPrice_eq, hfree.buyPrice_eq, ite_self]
    rw [pnl_sub_openProfit hprice hslippage h, hfree.commission_eq, hexit, sub_self, abs_zero,
      mul_zero, neg_zero, sub_zero, add_zero]

end Quoted

end Signs

-- Closing what an order has just opened leaves the cash with the profit of the trade.
theorem exit_after_book {fill : K}
    (h : order p code exchange fill day s e side = .ok (.filled pos cost fee)) (later : Date) :
    ∃ trade returned r, settle pos price later e = .ok (trade, returned) ∧
      on (exit code price later e) (p.book (.filled pos cost fee)) = (.ok (some trade), r) ∧
      r.cash = p.cash + trade.pnl := by
  have hbuys := buys_of_order h
  obtain ⟨trade, returned, hsettle, hreturned⟩ := settle_exact pos price later e
  have hheld : (p.book (.filled pos cost fee)).position? code = some pos :=
    hbuys.code_eq ▸ hbuys.held
  refine ⟨trade, returned, _, hsettle, exit_settled hheld hsettle, ?_⟩
  simp only [credit, without, book, hreturned, committed_of_filled h]
  ring

-- In exact arithmetic a fill at a quote changes the equity at that quote by exactly its commission
-- and its slippage. Entries, and exits from shorts, never increase it, and what costs nothing
-- leaves it. A sale increases it only where slippage takes more than the whole price and the
-- commission is more than the whole value, which is then below zero. Opening and closing at one
-- quote changes the cash by the profit of the trade, and is never a gain.
theorem fills_pay_their_costs {quotes : PriceMap K} (hquote : quotes.lookup code = some price)
    (hprice : 0 ≤ price) (hslippage : 0 ≤ e.slippagePct) (hflat : 0 ≤ e.commissionFlat)
    (hpct : 0 ≤ e.commissionPct) (p : Portfolio K) :
    (∀ side exchange day s pos cost fee q,
      on (enter side code exchange price day s e) p = (.ok (.filled pos cost fee), q) →
        ∃ before after, p.equity quotes = .ok before ∧ q.equity quotes = .ok after ∧
          after = before - fee - |(pos.quantity : K)| * |pos.entryPrice - price| ∧
          after ≤ before ∧ (e.Free → after = before)) ∧
    (p.Single → ∀ pos day, p.position? code = some pos → ∃ trade q before after,
      on (exit code price day e) p = (.ok (some trade), q) ∧
        p.equity quotes = .ok before ∧ q.equity quotes = .ok after ∧
        after = before - e.commission (|(pos.quantity : K)| * trade.exitPrice) -
          |(pos.quantity : K)| * |trade.exitPrice - price| ∧
        (before < after ↔ pos.isLong = true ∧
          e.commissionFlat + |(pos.quantity : K)| * price *
              (e.slippagePct / 100 + e.commissionPct / 100) <
            |(pos.quantity : K)| * price * (e.slippagePct / 100 * (e.commissionPct / 100))) ∧
        (before < after → 100 < e.slippagePct ∧ 100 < e.commissionPct) ∧
        (e.Free → after = before)) ∧
    ∀ side exchange day later s pos cost fee q,
      on (enter side code exchange price day s e) p = (.ok (.filled pos cost fee), q) →
        ∃ trade r, on (exit code price later e) q = (.ok (some trade), r) ∧
          r.cash = p.cash + trade.pnl ∧ trade.pnl ≤ 0 ∧ (e.Free → trade.pnl = 0) := by
  have hequity := equity_exact p quotes
  refine ⟨fun side exchange day s pos cost fee q h => ?_, fun hs pos day hpos => ?_,
    fun side exchange day later s pos cost fee q h => ?_⟩
  · obtain ⟨horder, rfl⟩ := enter_filled h
    obtain ⟨after, hafter⟩ :=
      equity_of_entry hprice hslippage hflat hpct hquote horder hequity
    exact ⟨_, after, hequity, hafter⟩
  · obtain rfl : pos.code = code := by simpa using List.find?_some hpos
    obtain ⟨trade, returned, hsettle, -⟩ := settle_exact pos price day e
    obtain ⟨after, hafter⟩ :=
      equity_of_exit hprice hslippage hflat hpct hquote hs hpos hsettle hequity
    exact ⟨trade, _, _, after, exit_settled hpos hsettle, hequity, hafter⟩
  · obtain ⟨horder, rfl⟩ := enter_filled h
    obtain ⟨trade, returned, r, hsettle, hexit, hcash⟩ := exit_after_book horder later
    have hpnl := roundTrip_pnl horder hsettle
    refine ⟨trade, r, hexit, hcash, ?_, fun hfree => ?_⟩
    · rw [hpnl]
      exact neg_nonpos.2 (by positivity)
    · rw [hpnl, hfree.1, hfree.2.1, hfree.2.2]
      ring

section Rational

attribute [local instance] Roots.untaken

theorem fills_pay_their_costs_lastShare :
    ∃ pos cost fee q trade r after, on (lastShare 0 0) (.new 1000) = (.ok (.filled pos cost fee), q) ∧
      q.equity [("AAA", 60)] = .ok 0 ∧
      on (exit "AAA" 60 nextDay ⟨10, 0, 50, true⟩) q = (.ok (some trade), r) ∧
      r.cash = 1000 + trade.pnl ∧ trade.pnl ≤ 0 ∧
      r.equity [("AAA", 60)] = .ok after ∧ ¬ 0 < after := by
  have hquote : List.lookup "AAA" ([("AAA", 60)] : PriceMap ℚ) = some 60 := by decide
  have hslippage : 0 ≤ (⟨10, 0, 50, true⟩ : Execution ℚ).slippagePct := by norm_num
  have hcosts := fills_pay_their_costs hquote (by norm_num) hslippage (by norm_num) (by norm_num)
  obtain ⟨pos, q, hon, hquantity, hentry⟩ := lastShare_filled 0 0
  obtain ⟨horder, hq⟩ := enter_filled hon
  have hbuys := buys_of_order horder
  obtain ⟨hopen, -, hround⟩ := hcosts (.new 1000)
  obtain ⟨before, opened, hbefore, hopened, hchange, -⟩ := hopen _ _ _ _ _ _ _ _ hon
  obtain rfl : (1000 : ℚ) = before := Except.ok.inj hbefore
  obtain rfl : opened = 0 := by
    rw [hchange, hquantity, hentry]
    norm_num
  obtain ⟨trade, r, hexit, hcash, hpnl, -⟩ := hround _ _ _ nextDay _ _ _ _ _ hon
  have hsingle : q.Single := by
    rw [hq, hbuys.after]
    exact List.nodup_singleton _
  obtain ⟨_, _, _, after, hexit', hbefore', hafter, -, hgains, -⟩ :=
    (hcosts q).2.1 hsingle pos nextDay (hq ▸ hbuys.held)
  cases hexit.symm.trans hexit'
  cases hopened.symm.trans hbefore'
  refine ⟨pos, 990, 10, q, trade, r, after, hon, hopened, hexit, hcash, hpnl, hafter,
    mt hgains.1 fun hlong => ?_⟩
  simp [Position.isLong, hquantity] at hlong

-- Bought for three times the price, to be sold for as much below zero.
def worthless : Portfolio ℚ :=
  (on (enter .long "AAA" "X" 10 someDay (committing (1 / 4) 0 0) ⟨0, 300, 200, false⟩)
    (.new 100000)).2

-- The commission of a sale below zero is below zero too: here it is three times what is paid for
-- taking the shares away.
theorem not_exit_never_gains :
    ¬ ∀ (p q : Portfolio ℚ) (quotes : PriceMap ℚ) (code : String) (price before after : ℚ)
      (day : Date) (e : Execution ℚ) (trade : ClosedTrade ℚ), p.Single →
        quotes.lookup code = some price → 0 ≤ price → 0 ≤ e.slippagePct →
        0 ≤ e.commissionFlat → 0 ≤ e.commissionPct →
        on (exit code price day e) p = (.ok (some trade), q) →
        p.equity quotes = .ok before → q.equity quotes = .ok after → after ≤ before := by
  intro hnever
  have hsingle : worthless.Single := by
    rw [Single]
    decide +kernel
  obtain ⟨pos, hheld⟩ : ∃ pos, worthless.position? "AAA" = some pos :=
    Option.isSome_iff_exists.1 (by decide +kernel)
  obtain ⟨trade, returned, hsettle, -⟩ := settle_exact pos 10 nextDay ⟨0, 300, 200, false⟩
  have hon := exit_settled hheld hsettle
  have hbefore : worthless.equity [("AAA", 10)] = .ok 8370 := by decide +kernel
  have hafter : (on (exit "AAA" 10 nextDay ⟨0, 300, 200, false⟩) worthless).2.equity
      [("AAA", 10)] = .ok 16700 := by
    decide +kernel
  rw [hon] at hafter
  have hle := hnever worthless _ _ _ _ _ _ _ _ trade hsingle (by decide) (by norm_num)
    (by norm_num) (by norm_num) (by norm_num) hon hbefore hafter
  norm_num at hle

end Rational

end Portfolio

end BarReplay
