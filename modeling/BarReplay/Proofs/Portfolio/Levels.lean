import Mathlib.Tactic.Linarith
import Mathlib.Tactic.Ring
import BarReplay.Proofs.Portfolio.Sizing

namespace BarReplay

section Position

variable {α : Type} [Amount α]

theorem Position.stops_eq_true_iff (pos : Position α) (quote : α) :
    pos.stops quote = true ↔ ¬ pos.stopLoss ≤ 0 ∧
      if pos.isLong then quote ≤ pos.stopLoss else pos.stopLoss ≤ quote := by
  unfold stops
  split_ifs <;> simp [*]

theorem Position.takes_eq_true_iff (pos : Position α) (quote : α) :
    pos.takes quote = true ↔ ¬ pos.takeProfit ≤ 0 ∧
      if pos.isLong then pos.takeProfit ≤ quote else quote ≤ pos.takeProfit := by
  unfold takes
  split_ifs <;> simp [*]

end Position

namespace Portfolio

open Portfolio.Action

variable {K : Type} [Field K] [LinearOrder K] [FloorRing K] [Roots K] [IsStrictOrderedRing K]

section Levels

variable {fill quote pct : K}

-- A level below the entry price is reached by a fall of so much. Where it is not positive, no
-- price falls so much.
theorem fall_iff (hquote : 0 < quote) {level : K}
    (hlevel : level = if 0 < pct then fill * (1 - pct / 100) else 0) :
    ¬ level ≤ 0 ∧ quote ≤ level ↔ 0 < pct ∧ quote - fill ≤ -(pct / 100 * fill) := by
  by_cases hpct : 0 < pct
  · have hsame : quote ≤ level ↔ quote - fill ≤ -(pct / 100 * fill) := by
      rw [hlevel, if_pos hpct, mul_sub, mul_one, mul_comm fill, sub_le_iff_le_add, neg_add_eq_sub]
    rw [hsame, and_iff_right hpct]
    exact ⟨And.right, fun h => ⟨(hquote.trans_le (hsame.2 h)).not_ge, h⟩⟩
  · simp [hlevel, hpct]

-- A level above the entry price is reached by a rise of so much.
theorem rise_iff (hfill : 0 < fill) {level : K}
    (hlevel : level = if 0 < pct then fill * (1 + pct / 100) else 0) :
    ¬ level ≤ 0 ∧ level ≤ quote ↔ 0 < pct ∧ pct / 100 * fill ≤ quote - fill := by
  by_cases hpct : 0 < pct
  · have hpositive : ¬ level ≤ 0 := by
      rw [hlevel, if_pos hpct, not_le]
      positivity
    rw [and_iff_right hpositive, and_iff_right hpct, hlevel, if_pos hpct, mul_add, mul_one,
      mul_comm fill, le_sub_iff_add_le']
  · simp [hlevel, hpct]

end Levels

section Opened

variable {code exchange : String} {fill quote fee : K} {day : Date} {s : Strategy K}
  {side : Side} {shares : ℤ}

-- A share of a position gains what its price moves in the direction of the position. A long is
-- stopped by a fall and a short by a rise.
theorem stops_opened_iff (hfill : 0 < fill) (hquote : 0 < quote) (hshares : 0 < shares) :
    (opened code exchange fill day s side shares fee).stops quote = true ↔
      0 < s.stopLossPct ∧ side.sign * (quote - fill) ≤ -(s.stopLossPct / 100 * fill) := by
  rw [Position.stops_eq_true_iff]
  simp only [isLong_opened hshares]
  cases side with
  | long =>
    rw [if_pos rfl, Side.sign, one_mul]
    exact fall_iff hquote (by simp [opened, stopLossPrice, Side.sign, Amount.whole])
  | short =>
    rw [if_neg (by decide), Side.sign, neg_one_mul, neg_le_neg_iff]
    exact rise_iff hfill (by simp [opened, stopLossPrice, Side.sign, Amount.whole, neg_div])

-- A long takes its profit from a rise and a short from a fall.
theorem takes_opened_iff (hfill : 0 < fill) (hquote : 0 < quote) (hshares : 0 < shares) :
    (opened code exchange fill day s side shares fee).takes quote = true ↔
      0 < s.takeProfitPct ∧ s.takeProfitPct / 100 * fill ≤ side.sign * (quote - fill) := by
  rw [Position.takes_eq_true_iff]
  simp only [isLong_opened hshares]
  cases side with
  | long =>
    rw [if_pos rfl, Side.sign, one_mul]
    exact rise_iff hfill (by simp [opened, takeProfitPrice, Side.sign, Amount.whole])
  | short =>
    rw [if_neg (by decide), Side.sign, neg_one_mul, le_neg]
    exact fall_iff hquote
      (by simp [opened, takeProfitPrice, Side.sign, Amount.whole, neg_div, sub_eq_add_neg])

end Opened

section Filled

variable {side : Side} {code exchange : String} {fill : K} {day : Date} {s : Strategy K}
  {e : Execution K} {p : Portfolio K} {pos : Position K} {cost fee quote : K}

-- The profit of a position that an order has opened, and the percentages of the money put in, are
-- those of its shares.
theorem filled_levels
    (h : order p code exchange fill day s e side = .ok (.filled pos cost fee))
    (hquote : 0 < quote) :
    (pos.stops quote = true ↔ 0 < s.stopLossPct ∧
      pos.quantity * (quote - pos.entryPrice) ≤
        -(s.stopLossPct / 100) * |(pos.quantity : K)| * pos.entryPrice) ∧
    (pos.takes quote = true ↔ 0 < s.takeProfitPct ∧
      s.takeProfitPct / 100 * |(pos.quantity : K)| * pos.entryPrice ≤
        pos.quantity * (quote - pos.entryPrice)) := by
  obtain ⟨-, hfill, shares, -, -, hshares, -, -, -, -, rfl⟩ := order_filled h
  have hsize : |(side.signed shares : K)| = shares := side.abs_cast_signed hshares
  have hpositive : (0 : K) < shares := Int.cast_pos.2 hshares
  have hpnl : (side.signed shares : K) * (quote - fill) =
      shares * (side.sign * (quote - fill)) := by
    rw [Side.cast_signed, mul_assoc, mul_left_comm]
  have hloss : -(s.stopLossPct / 100) * shares * fill =
      shares * -(s.stopLossPct / 100 * fill) := by ring
  have hgain : s.takeProfitPct / 100 * shares * fill =
      shares * (s.takeProfitPct / 100 * fill) := by ring
  rw [stops_opened_iff hfill hquote hshares, takes_opened_iff hfill hquote hshares]
  simp only [opened, hsize, hpnl, hloss, hgain, mul_le_mul_iff_right₀ hpositive, and_self]

theorem filled_pos (h : order p code exchange fill day s e side = .ok (.filled pos cost fee)) :
    0 < pos.entryPrice ∧ 0 < |(pos.quantity : K)| * pos.entryPrice := by
  obtain ⟨-, hfill, shares, -, -, hshares, -, -, -, -, rfl⟩ := order_filled h
  refine ⟨hfill, mul_pos (abs_pos.2 (Int.cast_ne_zero.2 ?_)) hfill⟩
  rw [← abs_pos, opened, Side.abs_signed]
  exact abs_pos_of_pos hshares

theorem loses_of_stops (h : order p code exchange fill day s e side = .ok (.filled pos cost fee))
    (hquote : 0 < quote) (hstops : pos.stops quote = true) :
    pos.quantity * (quote - pos.entryPrice) < 0 := by
  obtain ⟨hpct, hle⟩ := (filled_levels h hquote).1.1 hstops
  refine hle.trans_lt ?_
  rw [mul_assoc, neg_mul]
  exact neg_neg_of_pos (mul_pos (by positivity) (filled_pos h).2)

theorem gains_of_takes (h : order p code exchange fill day s e side = .ok (.filled pos cost fee))
    (hquote : 0 < quote) (htakes : pos.takes quote = true) :
    0 < pos.quantity * (quote - pos.entryPrice) := by
  obtain ⟨hpct, hle⟩ := (filled_levels h hquote).2.1 htakes
  refine lt_of_lt_of_le ?_ hle
  rw [mul_assoc]
  exact mul_pos (by positivity) (filled_pos h).2

end Filled

-- In exact arithmetic a stop fires exactly at a loss of its percentage of the money put in, and a
-- target exactly at such a gain; a percentage that is not positive is off. So they never fire
-- together, and not at the entry price.
theorem levels_are_percentages {side : Side} {code exchange : String} {price : K} {day : Date}
    {s : Strategy K} {e : Execution K} {p q : Portfolio K} {pos : Position K} {cost fee : K}
    (h : on (enter side code exchange price day s e) p = (.ok (.filled pos cost fee), q)) :
    (∀ quote, 0 < quote → ∃ pnl, pos.unrealizedPnl quote = .ok pnl ∧
      (pos.stops quote = true ↔ 0 < s.stopLossPct ∧
        pnl ≤ -(s.stopLossPct / 100) * |(pos.quantity : K)| * pos.entryPrice) ∧
      (pos.takes quote = true ↔ 0 < s.takeProfitPct ∧
        s.takeProfitPct / 100 * |(pos.quantity : K)| * pos.entryPrice ≤ pnl) ∧
      ¬ (pos.stops quote = true ∧ pos.takes quote = true)) ∧
    pos.stops pos.entryPrice = false ∧ pos.takes pos.entryPrice = false := by
  have horder := (enter_filled h).1
  have hentry := (filled_pos horder).1
  have hnone : pos.quantity * (pos.entryPrice - pos.entryPrice) = 0 := by
    rw [sub_self, mul_zero]
  refine ⟨fun quote hquote => ?_, ?_, ?_⟩
  · obtain ⟨hstops, htakes⟩ := filled_levels horder hquote
    refine ⟨_, rfl, hstops, htakes, fun hboth => ?_⟩
    exact (loses_of_stops horder hquote hboth.1).not_gt (gains_of_takes horder hquote hboth.2)
  · exact Bool.eq_false_iff.2 fun hstops => (loses_of_stops horder hentry hstops).ne hnone
  · exact Bool.eq_false_iff.2 fun htakes => (gains_of_takes horder hentry htakes).ne' hnone

section Rational

attribute [local instance] Roots.untaken

-- A stop at the double of the entry price, and a target below zero that is never reached.
theorem levels_are_percentages_doubled :
    ∃ pos cost fee q, on (lastShare 100 150) (.new 1000) = (.ok (.filled pos cost fee), q) ∧
      pos.quantity = -33 ∧ pos.entryPrice = 30 ∧ pos.stops 60 = true ∧ pos.stops 59 = false ∧
      pos.takes 1 = false := by
  obtain ⟨pos, q, hon, hquantity, hentry⟩ := lastShare_filled 100 150
  have hlevels := (levels_are_percentages hon).1
  obtain ⟨_, ⟨⟩, hdouble, -⟩ := hlevels 60 (by norm_num)
  obtain ⟨_, ⟨⟩, hbelow, -⟩ := hlevels 59 (by norm_num)
  obtain ⟨_, ⟨⟩, -, htakes, -⟩ := hlevels 1 (by norm_num)
  rw [hquantity, hentry] at hdouble hbelow htakes
  refine ⟨pos, 990, 10, q, hon, hquantity, hentry, hdouble.2 ?_,
    Bool.eq_false_iff.2 (mt hbelow.1 ?_), Bool.eq_false_iff.2 (mt htakes.1 ?_)⟩
  · simp only [committing]
    norm_num
  · simp only [committing]
    norm_num
  · simp only [committing]
    norm_num

end Rational

end Portfolio

end BarReplay
