import Mathlib.Algebra.BigOperators.Fin
import Mathlib.Algebra.Order.Field.Basic
import Mathlib.Algebra.Order.Floor.Ring
import Mathlib.Data.Rat.Floor
import Mathlib.Tactic.Ring
import BarReplay.Proofs.Indicator.Exact

namespace BarReplay

variable {K : Type} [Field K]

namespace Exact

-- The sum in which the first value counts once, the second twice, and so on.
def risingSum (xs : List K) : K :=
  ∑ j : Fin xs.length, ((j : ℕ) + 1 : K) * xs[j]

theorem risingSum_nil : risingSum ([] : List K) = 0 :=
  rfl

theorem risingSum_cons (x : K) (xs : List K) :
    risingSum (x :: xs) = x + (risingSum xs + xs.sum) := by
  have hsum : ∑ j : Fin xs.length, xs[j] = xs.sum := by
    simp
  unfold risingSum
  rw [← hsum, ← Finset.sum_add_distrib]
  refine (Fin.sum_univ_succ _).trans ?_
  simp [add_mul]

theorem risingSum_concat (xs : List K) (x : K) :
    risingSum (xs ++ [x]) = risingSum xs + (xs.length + 1) * x := by
  induction xs with
  | nil => simp [risingSum_cons, risingSum_nil]
  | cons y xs ih =>
    rw [List.cons_append, risingSum_cons, risingSum_cons, ih, List.sum_append, List.sum_singleton,
      List.length_cons]
    push_cast
    ring

variable [LinearOrder K] [FloorRing K] [Roots K]

open Indicator

theorem simpleAverage_tells {n : Nat} (hn : 1 ≤ n) :
    (simpleAverage n : Study K K).Tells (fun shown total => total = (lastCloses n shown).sum)
      fun shown reading => n ≤ shown.length → reading = .scalar (mean (lastCloses n shown)) where
  start h := by
    cases h
    rw [lastCloses_nil]
    rfl
  step {shown b state next valid reading} hstate h := by
    subst hstate
    have hreading : reading = .scalar
        (if decide (n ≤ (Moment.mk shown.reverse b).index + 1) = true then next / n else 0) := by
      cases h
      rfl
    have hnext : next = (lastCloses n (shown ++ [b])).sum := by
      cases moves hn shown b with
      | fills _ hago hnext =>
        simp only [simpleAverage, hago] at h
        cases h
        rw [hnext, List.sum_append, List.sum_singleton]
      | slides oldest rest _ hago hlast hnext =>
        simp only [simpleAverage, hago] at h
        cases h
        rw [hlast, hnext, List.sum_append, List.sum_singleton, List.sum_cons]
        ring
    refine ⟨hnext, fun hfull => ?_⟩
    rw [hreading, if_pos (full_of_le hfull), hnext, mean, lastCloses_length hfull]

-- When the window moves on, every close in it counts once less, which takes away their sum.
theorem weightedAverage_tells {n : Nat} (hn : 1 ≤ n) :
    (weightedAverage n : Study K _).Tells
      (fun shown state => state.divisor = n * (n + 1) / 2 ∧
        state.weighted = risingSum (lastCloses n shown) ∧
        state.total = (lastCloses n shown).sum)
      fun shown reading => n ≤ shown.length →
        reading = .scalar (risingSum (lastCloses n shown) / (n * (n + 1) / 2)) where
  start h := by
    cases h
    rw [lastCloses_nil]
    refine ⟨?_, rfl, rfl⟩
    simp only [Amount.whole_exact]
    push_cast
    rfl
  step {shown b state next valid reading} hstate h := by
    obtain ⟨hdivisor, hweighted, htotal⟩ := hstate
    have hreading : reading = .scalar
        (if decide (n ≤ (Moment.mk shown.reverse b).index + 1) = true
          then next.weighted / next.divisor else 0) := by
      cases h
      rfl
    have hnext : next.divisor = state.divisor ∧
        next.weighted = risingSum (lastCloses n (shown ++ [b])) ∧
        next.total = (lastCloses n (shown ++ [b])).sum := by
      cases moves hn shown b with
      | fills hlength hago hnext =>
        simp only [weightedAverage, hago] at h
        cases h
        simp only [hnext, risingSum_concat, List.sum_append, List.sum_singleton, hlength,
          hweighted, htotal, Amount.whole_exact, Moment.index_shown]
        exact ⟨trivial, by push_cast; rfl, trivial⟩
      | slides oldest rest hlength hago hlast hnext =>
        simp only [weightedAverage, hago] at h
        cases h
        have hcount : (n : K) = rest.length + 1 := by exact_mod_cast hlength.symm
        simp only [hnext, risingSum_concat, List.sum_append, List.sum_nil, hweighted, htotal,
          hlast, risingSum_cons, List.sum_cons, Amount.whole_exact, hcount]
        exact ⟨trivial, by ring, by ring⟩
    rw [hdivisor] at hnext
    refine ⟨hnext, fun hfull => ?_⟩
    rw [hreading, if_pos (full_of_le hfull), hnext.1, hnext.2.1]

theorem bollinger_tells (n : Nat) (multiplier : K) :
    (bollinger n multiplier).Tells (fun _ _ => True)
      fun shown reading => n ≤ shown.length →
        let closes := lastCloses n shown
        let band := multiplier * Roots.sqrt (variance closes)
        reading = .bollinger (mean closes + band) (mean closes) (mean closes - band) where
  start _ := trivial
  step {shown b state next valid reading} _ h := by
    refine ⟨trivial, fun hfull => ?_⟩
    have hindex := of_decide_eq_true (full_of_le hfull)
    simp only [bollinger, closeStats?_eq, if_pos hindex, Moment.window_shown] at h
    cases h
    rfl

section Full

variable {bars : List (Bar K)} {n i : Nat}

theorem simpleAverage_gives (hn : 1 ≤ n) (hfull : n ≤ i + 1) (hi : i < bars.length) :
    (Spec.windowed .sma n).Gives bars i .value (mean (lastCloses n (bars.take (i + 1)))) := by
  obtain ⟨r, hr, hgives⟩ := gives_of_tells (s := .windowed .sma n) hn (fun _ => rfl)
    (simpleAverage_tells hn) hi (Nat.sub_le_iff_le_add.2 hfull)
  rw [hr (by rwa [List.length_take_of_le hi])] at hgives
  exact hgives .value _ rfl

theorem weightedAverage_gives (hn : 1 ≤ n) (hfull : n ≤ i + 1) (hi : i < bars.length) :
    (Spec.windowed .wma n).Gives bars i .value
      (risingSum (lastCloses n (bars.take (i + 1))) / (n * (n + 1) / 2)) := by
  obtain ⟨r, hr, hgives⟩ := gives_of_tells (s := .windowed .wma n) hn (fun _ => rfl)
    (weightedAverage_tells hn) hi (Nat.sub_le_iff_le_add.2 hfull)
  rw [hr (by rwa [List.length_take_of_le hi])] at hgives
  exact hgives .value _ rfl

theorem bollinger_gives {multiplier : K} (hs : (Spec.bollinger n multiplier).Valid)
    (hfull : n ≤ i + 1) (hi : i < bars.length) :
    let closes := lastCloses n (bars.take (i + 1))
    let band := multiplier * Roots.sqrt (variance closes)
    (Spec.bollinger n multiplier).Gives bars i .upper (mean closes + band) ∧
      (Spec.bollinger n multiplier).Gives bars i .middle (mean closes) ∧
      (Spec.bollinger n multiplier).Gives bars i .lower (mean closes - band) := by
  obtain ⟨r, hr, hgives⟩ := gives_of_tells hs (fun _ => rfl) (bollinger_tells n multiplier) hi
    (Nat.sub_le_iff_le_add.2 hfull)
  rw [hr (by rwa [List.length_take_of_le hi])] at hgives
  exact ⟨hgives .upper _ rfl, hgives .middle _ rfl, hgives .lower _ rfl⟩

-- The running averages are those of the closes in their window, at every bar that fills it, and
-- the bands are around the simple one.
theorem averages_of_window (hn : 1 ≤ n) (hfull : n ≤ i + 1) (hi : i < bars.length)
    {multiplier : K} (hmultiplier : 0 ≤ multiplier) :
    let closes := ((bars.map Bar.close).drop (i + 1 - n)).take n
    closes.length = n ∧
      (Spec.windowed .sma n).Gives bars i .value (closes.sum / n) ∧
      (Spec.windowed .wma n).Gives bars i .value (risingSum closes / (n * (n + 1) / 2)) ∧
      ∃ middle, (Spec.bollinger n multiplier).Gives bars i .middle middle ∧
        (Spec.windowed .sma n).Gives bars i .value middle := by
  intro closes
  have hcloses : lastCloses n (bars.take (i + 1)) = closes := lastCloses_take hfull hi
  have hlength : closes.length = n :=
    hcloses ▸ lastCloses_length (by rwa [List.length_take_of_le hi])
  have hmean : mean closes = closes.sum / n := by rw [mean, hlength]
  have hsimple := simpleAverage_gives hn hfull hi
  have hweighted := weightedAverage_gives hn hfull hi
  have hbands : (Spec.bollinger n multiplier).Valid := ⟨hn, rfl, hmultiplier.not_gt⟩
  obtain ⟨-, hmiddle, -⟩ := bollinger_gives hbands hfull hi
  rw [hcloses] at hsimple hweighted hmiddle
  exact ⟨hlength, hmean ▸ hsimple, hweighted, _, hmiddle, hsimple⟩

end Full

section Rational

attribute [local instance] Roots.untaken

-- A bar on one of the days of a September, counted from zero.
def inSeptember (day : Fin 30) (high low close volume : ℚ) : Bar ℚ :=
  ⟨⟨2017, 9, day + 1, by decide, by decide, ⟨by omega, day.isLt⟩⟩, close, high, low, close, volume⟩

-- Four days, of which one is not traded.
def swinging : List (Bar ℚ) :=
  [inSeptember 3 12 9 10 100, inSeptember 4 16 10 16 300, inSeptember 5 16 7 7 0,
    inSeptember 6 13 7 13 200]

-- The window of the last three closes has lost the first of them.
theorem averages_of_window_swinging :
    3 < swinging.length ∧ (0 : ℚ) ≤ 2 ∧
      (Spec.windowed .sma 3).Gives swinging 3 .value 12 ∧
      (Spec.windowed .wma 3).Gives swinging 3 .value (23 / 2) ∧
      ∃ middle, (Spec.bollinger 3 (2 : ℚ)).Gives swinging 3 .middle middle ∧
        (Spec.windowed .sma 3).Gives swinging 3 .value middle := by
  have hi : 3 < swinging.length := by decide
  have hmultiplier : (0 : ℚ) ≤ 2 := by norm_num
  obtain ⟨-, hsimple, hweighted, hbands⟩ :=
    averages_of_window (n := 3) (by decide) (by decide) hi hmultiplier
  have hcloses : ((swinging.map Bar.close).drop (3 + 1 - 3)).take 3 = [16, 7, 13] := rfl
  rw [hcloses] at hsimple hweighted
  refine ⟨hi, hmultiplier, ?_, ?_, hbands⟩
  · norm_num at hsimple
    exact hsimple
  · norm_num [risingSum_cons, risingSum_nil] at hweighted
    exact hweighted

end Rational

end Exact

end BarReplay
