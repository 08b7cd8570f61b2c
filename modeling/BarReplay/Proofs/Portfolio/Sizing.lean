import Mathlib.Algebra.Order.Field.Basic
import Mathlib.Algebra.Order.Floor.Ring
import Mathlib.Data.Rat.Floor
import BarReplay.Proofs.Amount.Exact
import BarReplay.Proofs.Portfolio.Steps

namespace BarReplay

variable {K : Type} [Field K] [LinearOrder K] [FloorRing K] [Roots K]

namespace Side

theorem abs_signed (side : Side) (n : ℤ) : |side.signed n| = |n| := by
  cases side
  · rfl
  · exact abs_neg n

theorem cast_signed (side : Side) (n : ℤ) : (side.signed n : K) = side.sign * n := by
  cases side
  · exact (one_mul _).symm
  · exact (Int.cast_neg n).trans (neg_one_mul _).symm

omit [FloorRing K] [Roots K] in
theorem abs_cast_signed [IsStrictOrderedRing K] (side : Side) {shares : ℤ} (hshares : 0 < shares) :
    |(side.signed shares : K)| = shares := by
  rw [← Int.cast_abs, side.abs_signed, abs_of_pos hshares]

end Side

namespace Portfolio

open Portfolio.Action

-- In exact arithmetic an order is always decided: no number is too large for it.
theorem order_exact (p : Portfolio K) (code exchange : String) (fill : K) (day : Date)
    (s : Strategy K) (e : Execution K) (side : Side) :
    let shares := ⌊p.cash * s.positionSize / fill⌋
    let cost := shares * fill
    order p code exchange fill day s e side = .ok (
      if p.holds code then .rejected .alreadyOpen
      else if ¬ 0 < fill then .rejected .zeroQuantity
      else if shares ≤ 0 then .rejected .zeroQuantity
      else if p.cash < cost + e.commission cost then .rejected .insufficientCash
      else .filled (opened code exchange fill day s side shares (e.commission cost)) cost
        (e.commission cost)) := by
  intro shares cost
  unfold order
  split
  · rfl
  split
  · rfl
  change (if shares ≤ 0 then _ else _) = _
  split
  · rfl
  change (if p.cash < cost + e.commission cost then _ else _) = _
  split <;> rfl

theorem quotedOrder_exact (p : Portfolio K) (side : Side) (code exchange : String) (price : K)
    (day : Date) (s : Strategy K) (e : Execution K) :
    ∃ entry, quotedOrder p side code exchange price day s e = .ok entry := by
  unfold quotedOrder
  split
  · exact ⟨_, rfl⟩
  · exact ⟨_, order_exact p code exchange _ day s e side⟩

-- What a filled order buys: as many shares as a budget pays for at the fill price. The cash pays
-- for them with the commission and is not overdrawn, and the position is the only thing that is
-- new.
structure Buys (p : Portfolio K) (side : Side) (code exchange : String) (fill budget : K)
    (day : Date) (e : Execution K) (pos : Position K) (cost fee : K) (q : Portfolio K) : Prop where
  largest : IsGreatest {n : ℤ | n * fill ≤ budget} |pos.quantity|
  one_le : 1 ≤ |pos.quantity|
  quantity : pos.quantity = side.signed |pos.quantity|
  code_eq : pos.code = code
  exchange_eq : pos.exchange = exchange
  entryPrice : pos.entryPrice = fill
  entryDate : pos.entryDate = day
  entryCommission : pos.entryCommission = fee
  cost_eq : cost = |(pos.quantity : K)| * fill
  fee_eq : fee = e.commissionFlat + cost * e.commissionPct / 100
  after : q = { p with cash := p.cash - (cost + fee), positions := p.positions ++ [pos] }
  solvent : 0 ≤ q.cash
  free : p.holds code = false
  held : q.position? code = some pos

theorem position?_append {α : Type} {p : Portfolio α} {pos : Position α}
    (h : p.holds pos.code = false) (cash : α) :
    ({ p with cash := cash, positions := p.positions ++ [pos] } : Portfolio α).position? pos.code =
      some pos := by
  have hfree : p.positions.find? (·.code == pos.code) = none := by
    simpa [holds, position?] using h
  simp [position?, List.find?_append, hfree]

theorem isLong_opened {α : Type} [Amount α] {shares : ℤ} (hshares : 0 < shares)
    (code exchange : String) (fill : α) (day : Date) (s : Strategy α) (side : Side) (fee : α) :
    (opened code exchange fill day s side shares fee).isLong = true ↔ side = .long := by
  cases side
  · simp [Position.isLong, opened, Side.signed, hshares]
  · simp [Position.isLong, opened, Side.signed, hshares.le]

section Ordered

variable [IsStrictOrderedRing K]

-- The whole part of the quotient is the largest number of shares that a budget pays for.
theorem isGreatest_shares {fill : K} (hfill : 0 < fill) (budget : K) :
    IsGreatest {n : ℤ | n * fill ≤ budget} ⌊budget / fill⌋ := by
  constructor
  · exact (le_div_iff₀ hfill).1 (Int.floor_le _)
  · intro n hn
    exact Int.le_floor.2 ((le_div_iff₀ hfill).2 hn)

theorem shares_pos_iff {fill : K} (hfill : 0 < fill) (budget : K) :
    0 < ⌊budget / fill⌋ ↔ fill ≤ budget := by
  rw [Int.floor_pos, one_le_div hfill]

variable {p : Portfolio K} {side : Side} {code exchange : String} {fill price : K} {day : Date}
  {s : Strategy K} {e : Execution K} {pos : Position K} {cost fee : K}

theorem buys_of_order
    (h : order p code exchange fill day s e side = .ok (.filled pos cost fee)) :
    Buys p side code exchange fill (p.cash * s.positionSize) day e pos cost fee
      (p.book (.filled pos cost fee)) := by
  obtain ⟨hfree, hfill, quantity, shares, hfloor, hq, hshares, rfl, rfl, hcash, rfl⟩ :=
    order_filled h
  obtain rfl : ⌊p.cash * s.positionSize / fill⌋ = quantity := Except.ok.inj hfloor
  obtain rfl : _ = shares := Except.ok.inj hshares
  have habs : |side.signed ⌊p.cash * s.positionSize / fill⌋| = ⌊p.cash * s.positionSize / fill⌋ := by
    rw [Side.abs_signed, abs_of_pos hq]
  constructor
  case largest => exact habs.symm ▸ isGreatest_shares hfill _
  case one_le => exact habs.symm ▸ hq
  case quantity => exact congrArg side.signed habs.symm
  case cost_eq =>
    rw [← Int.cast_abs]
    exact congrArg (fun n : ℤ => (n : K) * fill) habs.symm
  case fee_eq => simp [Execution.commission, Amount.whole]
  case solvent => exact sub_nonneg.2 (not_lt.1 hcash)
  case free => exact hfree
  case held => exact position?_append hfree _
  all_goals rfl

-- The reasons against an order, the first of which counts: the instrument is held, the budget does
-- not pay for a share, or the cash does not pay for the commission as well.
theorem order_decided (p : Portfolio K) (code exchange : String) (fill : K) (day : Date)
    (s : Strategy K) (e : Execution K) (side : Side) :
    let budget := p.cash * s.positionSize
    let cost := ⌊budget / fill⌋ * fill
    order p code exchange fill day s e side = .ok (
      if p.holds code then .rejected .alreadyOpen
      else if fill ≤ 0 ∨ budget < fill then .rejected .zeroQuantity
      else if p.cash < cost + e.commission cost then .rejected .insufficientCash
      else .filled (opened code exchange fill day s side ⌊budget / fill⌋ (e.commission cost)) cost
        (e.commission cost)) := by
  intro budget cost
  rw [order_exact]
  by_cases hfill : 0 < fill
  · have hnone : ⌊p.cash * s.positionSize / fill⌋ ≤ 0 ↔ p.cash * s.positionSize < fill := by
      rw [← not_lt, shares_pos_iff hfill, not_le]
    simp only [hfill, not_true, if_false, hnone, hfill.not_ge, false_or]
    rfl
  · simp only [hfill, not_false_iff, if_true, not_lt.1 hfill, true_or]

theorem order_alreadyOpen_iff :
    order p code exchange fill day s e side = .ok (.rejected .alreadyOpen) ↔
      p.holds code = true := by
  rw [order_decided]
  split_ifs <;> simp [*]

theorem order_zeroQuantity_iff (hfree : p.holds code = false) :
    order p code exchange fill day s e side = .ok (.rejected .zeroQuantity) ↔
      fill ≤ 0 ∨ p.cash * s.positionSize < fill := by
  rw [order_decided, hfree, if_neg Bool.false_ne_true]
  split_ifs <;> simp [*]

theorem order_insufficientCash_iff (hfree : p.holds code = false) (hfill : 0 < fill)
    (hone : fill ≤ p.cash * s.positionSize) :
    let cost := ⌊p.cash * s.positionSize / fill⌋ * fill
    order p code exchange fill day s e side = .ok (.rejected .insufficientCash) ↔
      p.cash < cost + e.commission cost := by
  have hshares : ¬ (fill ≤ 0 ∨ p.cash * s.positionSize < fill) :=
    not_or.2 ⟨hfill.not_ge, hone.not_gt⟩
  rw [order_decided, hfree, if_neg Bool.false_ne_true, if_neg hshares]
  split_ifs <;> simp [*]

-- Without a commission, shares for a part of the cash never cost more than the cash.
theorem order_ne_insufficientCash (hflat : e.commissionFlat = 0) (hpct : e.commissionPct = 0)
    (hsize : 0 < s.positionSize) (hwhole : s.positionSize ≤ 1) :
    order p code exchange fill day s e side ≠ .ok (.rejected .insufficientCash) := by
  rw [order_decided]
  split_ifs with hheld hnone hcash
  · simp
  · simp
  · obtain ⟨hfill, hone⟩ := not_or.1 hnone
    have hfill : 0 < fill := not_le.1 hfill
    have hbudget : 0 < p.cash * s.positionSize := hfill.trans_le (not_lt.1 hone)
    have hcost : ⌊p.cash * s.positionSize / fill⌋ * fill ≤ p.cash :=
      calc ⌊p.cash * s.positionSize / fill⌋ * fill ≤ p.cash * s.positionSize :=
            (isGreatest_shares hfill _).1
        _ ≤ p.cash := mul_le_of_le_one_right (pos_of_mul_pos_left hbudget hsize.le).le hwhole
    simp only [Execution.commission, hflat, hpct, mul_zero, zero_div, add_zero] at hcash
    exact absurd hcost hcash.not_ge
  · simp

-- In exact arithmetic an order to enter is all or nothing. Rejected, it changes nothing; filled, it
-- buys as much as its part of the cash pays for. A short that is not allowed is rejected before
-- an instrument that is held, this before a budget that pays for no share, and this before cash
-- that does not pay for the commission as well, which never happens without one.
theorem enter_all_or_nothing (p : Portfolio K) (side : Side) (code exchange : String) (price : K)
    (day : Date) (s : Strategy K) (e : Execution K) :
    let fill := side.entryPrice e price
    let budget := p.cash * s.positionSize
    ∃ entry q, on (enter side code exchange price day s e) p = (.ok entry, q) ∧
      (∀ reason, entry = .rejected reason → q = p) ∧
      (∀ pos cost fee, entry = .filled pos cost fee →
        Buys p side code exchange fill budget day e pos cost fee q) ∧
      (entry = .rejected .shortingDisabled ↔ side = .short ∧ e.allowShorting = false) ∧
      (¬ (side = .short ∧ e.allowShorting = false) →
        (entry = .rejected .alreadyOpen ↔ p.holds code = true) ∧
        (p.holds code = false →
          (entry = .rejected .zeroQuantity ↔ fill ≤ 0 ∨ budget < fill) ∧
          (0 < fill → fill ≤ budget → ∃ shares : ℤ,
            IsGreatest {n : ℤ | n * fill ≤ budget} shares ∧
            (entry = .rejected .insufficientCash ↔
              p.cash < shares * fill + e.commission (shares * fill))))) ∧
      (e.commissionFlat = 0 → e.commissionPct = 0 → 0 < s.positionSize → s.positionSize ≤ 1 →
        entry ≠ .rejected .insufficientCash) := by
  intro fill budget
  obtain ⟨entry, hquoted⟩ := quotedOrder_exact p side code exchange price day s e
  have hon := enter_on side code exchange price day s e p
  rw [hquoted] at hon
  refine ⟨entry, p.book entry, hon, ?_, ?_, ?_⟩
  · rintro reason rfl
    rfl
  · rintro pos cost fee rfl
    exact buys_of_order (quotedOrder_filled hquoted).2
  by_cases hbarred : side = .short ∧ e.allowShorting = false
  · rw [quotedOrder, if_pos hbarred] at hquoted
    cases hquoted
    simp [hbarred]
  · rw [quotedOrder, if_neg hbarred] at hquoted
    have hentry (x : Entry K) :
        entry = x ↔ order p code exchange fill day s e side = .ok x := by
      rw [hquoted, Except.ok.injEq]
    simp only [ne_eq, hentry, hbarred]
    refine ⟨?_, fun _ => ⟨order_alreadyOpen_iff, fun hfree => ⟨order_zeroQuantity_iff hfree,
      fun hfill hone => ⟨_, isGreatest_shares hfill budget,
        order_insufficientCash_iff hfree hfill hone⟩⟩⟩, order_ne_insufficientCash⟩
    rw [order_decided]
    split_ifs <;> simp

end Ordered

section Rational

attribute [local instance] Roots.untaken

-- A strategy that commits a part of the cash to an entry, and leaves at some percentages.
def committing (part stopLoss takeProfit : ℚ) : Strategy ℚ where
  name := "committing"
  description := ""
  entryLong := .compare .above (.price .close) (.constant 0)
  exitLong := .compare .below (.price .close) (.constant 0)
  entryShort := none
  exitShort := none
  positionSize := part
  stopLossPct := stopLoss
  takeProfitPct := takeProfit
  maxPositions := 1

def someDay : Date :=
  ⟨2018, 5, 2, by decide, by decide, by decide⟩

def nextDay : Date :=
  ⟨2018, 5, 3, by decide, by decide, by decide⟩

-- A short at half of its price, of which one share more is too many, and whose commission is the
-- rest of a thousand.
def lastShare (stopLoss takeProfit : ℚ) : Action ℚ (Entry ℚ) :=
  enter .short "AAA" "X" 60 someDay (committing 1 stopLoss takeProfit)
    ⟨10, 0, 50, true⟩

theorem lastShare_filled (stopLoss takeProfit : ℚ) :
    ∃ pos q, on (lastShare stopLoss takeProfit) (.new 1000) = (.ok (.filled pos 990 10), q) ∧
      pos.quantity = -33 ∧ pos.entryPrice = 30 := by
  have hfill : Side.short.entryPrice (⟨10, 0, 50, true⟩ : Execution ℚ) 60 = 30 := by
    decide +kernel
  have hshares : ⌊(Portfolio.new (1000 : ℚ)).cash * 1 / 30⌋ = 33 := by decide +kernel
  have hcost : ((33 : ℤ) : ℚ) * 30 = 990 := by norm_num
  have hfee : (⟨10, 0, 50, true⟩ : Execution ℚ).commission 990 = 10 := by decide +kernel
  have hon := enter_on .short "AAA" "X" 60 someDay (committing 1 stopLoss takeProfit)
    ⟨10, 0, 50, true⟩ (.new 1000)
  rw [quotedOrder, if_neg (by decide), hfill, order_exact] at hon
  simp only [committing, hshares, hcost, hfee] at hon
  rw [if_neg (by decide), if_neg (by decide), if_neg (by decide), if_neg (by decide +kernel)] at hon
  exact ⟨_, _, hon, rfl, rfl⟩

theorem enter_all_or_nothing_lastShare :
    ∃ pos cost fee q, on (lastShare 0 0) (.new 1000) = (.ok (.filled pos cost fee), q) ∧
      |pos.quantity| = 33 ∧ IsGreatest {n : ℤ | (n : ℚ) * 30 ≤ 1000 * 1} 33 ∧ q.cash = 0 ∧
      q.position? "AAA" = some pos := by
  obtain ⟨pos, q, hon, hquantity, hentry⟩ := lastShare_filled 0 0
  obtain ⟨entry, q', hon', -, hfilled, -⟩ := enter_all_or_nothing (.new (1000 : ℚ)) .short
    "AAA" "X" 60 someDay (committing 1 0 0) ⟨10, 0, 50, true⟩
  cases hon.symm.trans hon'
  have hbuys := hfilled pos 990 10 rfl
  have habs : |pos.quantity| = 33 := hquantity ▸ rfl
  have hlargest := hbuys.largest
  rw [habs, ← hbuys.entryPrice, hentry] at hlargest
  refine ⟨pos, 990, 10, q, hon, habs, hlargest, ?_, hbuys.code_eq ▸ hbuys.held⟩
  rw [hbuys.after]
  exact (by norm_num : (1000 : ℚ) - (990 + 10) = 0)

end Rational

end Portfolio

end BarReplay
