import Mathlib.Algebra.BigOperators.Fin
import Mathlib.Algebra.BigOperators.Ring.List
import Mathlib.Algebra.Order.BigOperators.Group.List
import Mathlib.Algebra.Order.Field.Basic
import Mathlib.Algebra.Order.Floor.Ring
import Mathlib.Data.List.MinMax
import Mathlib.Data.Rat.Floor
import Mathlib.Tactic.Ring
import BarReplay.Proofs.Indicator.Smoothing
import BarReplay.Proofs.Indicator.Windows

namespace BarReplay

variable {K : Type} [LinearOrder K]

namespace Exact

-- A value between the least and the greatest of some values, of which there is one.
structure Between (xs : List K) (v : K) : Prop where
  least : xs.minimum ≤ v
  greatest : v ≤ xs.maximum

-- It is enough to be in every interval that the values are in.
theorem between_of_forall {xs : List K} {v : K} (hxs : xs ≠ [])
    (h : ∀ lo hi, (∀ x ∈ xs, x ∈ Set.Icc lo hi) → v ∈ Set.Icc lo hi) : Between xs v := by
  have hlength := List.length_pos_of_ne_nil hxs
  have hlo := (List.coe_minimum_of_length_pos hlength).symm
  have hhi := (List.coe_maximum_of_length_pos hlength).symm
  obtain ⟨-, hleast⟩ := List.minimum_eq_coe_iff.1 hlo
  obtain ⟨-, hgreatest⟩ := List.maximum_eq_coe_iff.1 hhi
  obtain ⟨hlower, hupper⟩ := h _ _ fun x hx => ⟨hleast x hx, hgreatest x hx⟩
  exact ⟨hlo ▸ WithTop.coe_le_coe.2 hlower, hhi ▸ WithBot.coe_le_coe.2 hupper⟩

theorem Between.eq_of_forall_eq {xs : List K} {v c : K} (h : Between xs v)
    (hxs : ∀ x ∈ xs, x = c) : v = c := by
  refine le_antisymm (WithBot.coe_le_coe.1 (h.greatest.trans ?_))
    (WithTop.coe_le_coe.1 (le_trans ?_ h.least))
  · exact List.maximum_le_of_forall_le fun x hx => WithBot.coe_le_coe.2 (hxs x hx).le
  · exact List.le_minimum_of_forall_le fun x hx => WithTop.coe_le_coe.2 (hxs x hx).ge

variable [Field K] [IsStrictOrderedRing K] {lo hi : K}

-- A weighted mean is in every interval that the values are in, as long as no weight is negative.
theorem weightedMean_mem_Icc {ι : Type} {l : List ι} {w x : ι → K}
    (hw : ∀ i ∈ l, 0 ≤ w i) (hpos : 0 < (l.map w).sum) (hx : ∀ i ∈ l, x i ∈ Set.Icc lo hi) :
    (l.map fun i => w i * x i).sum / (l.map w).sum ∈ Set.Icc lo hi := by
  rw [Set.mem_Icc, le_div_iff₀ hpos, div_le_iff₀ hpos, ← List.sum_map_mul_left,
    ← List.sum_map_mul_left]
  constructor
  · refine List.sum_le_sum fun i hmem => ?_
    rw [mul_comm lo]
    exact mul_le_mul_of_nonneg_left (hx i hmem).1 (hw i hmem)
  · refine List.sum_le_sum fun i hmem => ?_
    rw [mul_comm hi]
    exact mul_le_mul_of_nonneg_left (hx i hmem).2 (hw i hmem)

theorem mean_mem_Icc {xs : List K} (hxs : xs ≠ []) (h : ∀ x ∈ xs, x ∈ Set.Icc lo hi) :
    mean xs ∈ Set.Icc lo hi := by
  have hcount : (xs.map fun _ => (1 : K)).sum = xs.length := by simp
  have hpos : (0 : K) < xs.length := Nat.cast_pos.2 (List.length_pos_of_ne_nil hxs)
  have hmean := weightedMean_mem_Icc (w := fun _ => 1) (fun _ _ => zero_le_one)
    (hcount ▸ hpos) h
  simpa [mean, hcount] using hmean

theorem between_mean {xs : List K} (hxs : xs ≠ []) : Between xs (mean xs) :=
  between_of_forall hxs fun _ _ => mean_mem_Icc hxs

-- The weights of a rising sum.
theorem sum_rising (n : Nat) : ∑ j : Fin n, ((j : ℕ) + 1 : K) = n * (n + 1) / 2 := by
  induction n with
  | zero => simp
  | succ n ih =>
    rw [Fin.sum_univ_castSucc, Fin.val_last]
    simp only [Fin.val_castSucc, ih]
    push_cast
    ring

theorem risingMean_mem_Icc {n : Nat} {xs : List K} (hn : 1 ≤ n) (hlength : xs.length = n)
    (h : ∀ x ∈ xs, x ∈ Set.Icc lo hi) : risingSum xs / (n * (n + 1) / 2) ∈ Set.Icc lo hi := by
  subst hlength
  have hpos : (0 : K) < xs.length := Nat.cast_pos.2 hn
  rw [← sum_rising, risingSum, Fin.sum_univ_def, Fin.sum_univ_def]
  refine weightedMean_mem_Icc (fun j _ => by positivity) ?_ fun j _ => h _ (List.getElem_mem _)
  rw [← Fin.sum_univ_def, sum_rising]
  positivity

theorem variance_nonneg (xs : List K) : 0 ≤ variance xs :=
  div_nonneg (List.sum_nonneg (by simp [mul_self_nonneg])) (Nat.cast_nonneg _)

theorem variance_eq_zero {xs : List K} {c : K} (h : ∀ x ∈ xs, x = c) : variance xs = 0 := by
  have hsquares : ∀ y ∈ xs.map fun x => (x - mean xs) * (x - mean xs), y = 0 := by
    refine List.forall_mem_map.2 fun x hx => ?_
    have hmean : mean xs = c := (between_mean (List.ne_nil_of_mem hx)).eq_of_forall_eq h
    rw [h x hx, hmean, sub_self, mul_zero]
  rw [variance, mean, List.sum_eq_zero hsquares, zero_div]

variable [FloorRing K] [Roots K]

open Indicator

theorem exponential_mem_Icc {k a x : K} (hk : k ∈ Set.Icc 0 1) (ha : a ∈ Set.Icc lo hi)
    (hx : x ∈ Set.Icc lo hi) : SeededAverage.exponential k a x ∈ Set.Icc lo hi := by
  have hmean : _ ∈ Set.Icc lo hi := weightedMean_mem_Icc (l := [(k, x), (1 - k, a)])
    (w := Prod.fst) (x := Prod.snd) (by simpa using hk) (by simp) (by simp [*, -Set.mem_Icc])
  have heq : SeededAverage.exponential k a x = k * x + (1 - k) * a := by
    rw [mul_comm k, mul_comm (1 - k)]
    rfl
  simpa [heq] using hmean

theorem wilder_mem_Icc {n : Nat} {a x : K} (hn : 1 ≤ n) (ha : a ∈ Set.Icc lo hi)
    (hx : x ∈ Set.Icc lo hi) : SeededAverage.wilder n a x ∈ Set.Icc lo hi := by
  obtain ⟨m, rfl⟩ := Nat.exists_eq_add_of_le' hn
  have hpos : (0 : K) < m + 1 := by positivity
  have hmean : _ ∈ Set.Icc lo hi := weightedMean_mem_Icc (l := [((m : K), a), (1, x)])
    (w := Prod.fst) (x := Prod.snd) (by simp) (by simpa using hpos) (by simp [*, -Set.mem_Icc])
  have heq : SeededAverage.wilder (m + 1) a x = (m * a + x) / (m + 1) := by
    rw [wilder_eq, mul_comm, Nat.add_sub_cancel, Nat.cast_succ]
  simpa [heq] using hmean

-- A running average starts inside the data and stays there.
theorem average_after_mem_Icc {n : Nat} {blend : K → K → K} {xs : List K} (hn : 1 ≤ n)
    (hfull : n ≤ xs.length)
    (hblend : ∀ a x, a ∈ Set.Icc lo hi → x ∈ Set.Icc lo hi → blend a x ∈ Set.Icc lo hi)
    (hxs : ∀ x ∈ xs, x ∈ Set.Icc lo hi) :
    (SeededAverage.after n blend xs).average ∈ Set.Icc lo hi := by
  have hlength : (xs.take n).length = n := List.length_take_of_le hfull
  have hseed : mean (xs.take n) ∈ Set.Icc lo hi :=
    mean_mem_Icc (List.ne_nil_of_length_pos (hlength.symm ▸ hn)) fun x hx =>
      hxs x (List.mem_of_mem_take hx)
  rw [mean, hlength, ← Amount.sum_eq] at hseed
  rw [SeededAverage.average_after hn hfull]
  exact List.foldlRecOn _ _ hseed fun a ha x hx => hblend a x ha (hxs x (List.mem_of_mem_drop hx))

theorem fraction_mem_Icc {n : Nat} (hn : 1 ≤ n) : (2 / (n + 1) : K) ∈ Set.Icc 0 1 := by
  have htwo : (2 : K) ≤ n + 1 := by exact_mod_cast Nat.succ_le_succ hn
  exact ⟨by positivity, (div_le_one (by positivity)).2 htwo⟩

-- Which field of an indicator is an average, and of what.
inductive Averages : Spec K → Indicator.Field → (List (Bar K) → List K) → Prop where
  | simple (n : Nat) : Averages (.windowed .sma n) .value (lastCloses n)
  | weighted (n : Nat) : Averages (.windowed .wma n) .value (lastCloses n)
  | middleBand (n : Nat) (multiplier : K) : Averages (.bollinger n multiplier) .middle (lastCloses n)
  | exponential (n : Nat) : Averages (.windowed .ema n) .value (List.map Bar.close)
  | trueRange (n : Nat) : Averages (.windowed .atr n) .value trueRanges
  | volumeWeighted : Averages .vwap .value (List.map Bar.typicalPrice)

theorem exists_average {s : Spec K} {f : Indicator.Field} {data : List (Bar K) → List K}
    (h : Averages s f data) (hs : s.Valid) {bars : List (Bar K)} {i : Nat} (hi : i < bars.length)
    (hwarm : s.warmUp ≤ i) (hvolume : s = .vwap → ∀ b ∈ bars.take (i + 1), 0 ≤ b.volume) :
    ∃ v, s.Gives bars i f v ∧ Between (data (bars.take (i + 1))) v := by
  have hshown : (bars.take (i + 1)).length = i + 1 := List.length_take_of_le hi
  have hfull {n : Nat} (h : n - 1 ≤ i) : n ≤ i + 1 := Nat.sub_le_iff_le_add.1 h
  have hlong {n : Nat} (h : n - 1 ≤ i) : n ≤ (bars.take (i + 1)).length :=
    hshown.symm ▸ hfull h
  have hcloses {n : Nat} (hn : 1 ≤ n) (h : n - 1 ≤ i) : lastCloses n (bars.take (i + 1)) ≠ [] :=
    lastCloses_ne_nil hn (hlong h)
  have hseen {xs : List K} (h : xs.length = (bars.take (i + 1)).length) : xs ≠ [] :=
    List.ne_nil_of_length_eq_add_one (h.trans hshown)
  cases h with
  | simple n =>
    exact ⟨_, simpleAverage_gives hs (hfull hwarm) hi, between_mean (hcloses hs hwarm)⟩
  | weighted n =>
    exact ⟨_, weightedAverage_gives hs (hfull hwarm) hi, between_of_forall (hcloses hs hwarm)
      fun _ _ => risingMean_mem_Icc hs (lastCloses_length (hlong hwarm))⟩
  | middleBand n multiplier =>
    exact ⟨_, (bollinger_gives hs (hfull hwarm) hi).2.1, between_mean (hcloses hs.1 hwarm)⟩
  | exponential n =>
    obtain ⟨r, rfl, hgives⟩ := gives_of_tells hs (fun _ => rfl)
      (exponentialAverage_tells (fraction_eq n)) hi hwarm
    have hlength : ((bars.take (i + 1)).map Bar.close).length = _ := List.length_map _
    exact ⟨_, hgives .value _ rfl, between_of_forall (hseen hlength) fun _ _ =>
      average_after_mem_Icc hs (hlength ▸ hlong hwarm) fun a x =>
        exponential_mem_Icc (fraction_mem_Icc hs)⟩
  | trueRange n =>
    obtain ⟨r, rfl, hgives⟩ := gives_of_tells hs (fun _ => rfl) (averageTrueRange_tells n) hi hwarm
    have hlength := trueRanges_length (bars.take (i + 1))
    exact ⟨_, hgives .value _ rfl, between_of_forall (hseen hlength) fun _ _ =>
      average_after_mem_Icc hs (hlength ▸ hlong hwarm) fun a x => wilder_mem_Icc hs⟩
  | volumeWeighted =>
    obtain ⟨r, ⟨b, hb, rfl⟩, hgives⟩ :=
      gives_of_tells hs (fun _ => rfl) volumeWeightedPrice_tells hi hwarm
    have hlength : ((bars.take (i + 1)).map Bar.typicalPrice).length = _ := List.length_map _
    refine ⟨_, hgives .value _ rfl, between_of_forall (hseen hlength) fun _ _ hprices => ?_⟩
    rw [List.forall_mem_map] at hprices
    split
    · rename_i hpos
      simp only [worth, volume, Amount.sum_eq] at hpos ⊢
      simp only [mul_comm (Bar.typicalPrice _)]
      exact weightedMean_mem_Icc (hvolume rfl) hpos hprices
    · exact hprices b hb

-- A day on which there was one price.
structure Flat (price : K) (b : Bar K) : Prop where
  high : b.high = price
  low : b.low = price
  close : b.close = price

theorem Flat.trueRange {price : K} {b : Bar K} (hb : Flat price b) {previous : Option (Bar K)}
    (h : ∀ p ∈ previous, Flat price p) : b.trueRange (previous.map Bar.close) = 0 := by
  cases previous with
  | none => simp [Bar.trueRange, hb.high, hb.low]
  | some p =>
    simp [Bar.trueRange, hb.high, hb.low, (h p rfl).close, Amount.maximum, Amount.larger,
      Amount.abs]

theorem Averages.data_flat {s : Spec K} {f : Indicator.Field} {data : List (Bar K) → List K}
    (h : Averages s f data) {bars : List (Bar K)} {price : K} (hflat : ∀ b ∈ bars, Flat price b) :
    ∀ x ∈ data bars, x = if s.kind = .windowed .atr then 0 else price := by
  have hcloses (n : Nat) : ∀ x ∈ lastCloses n bars, x = price := fun x hx => by
    obtain ⟨b, hb, rfl⟩ := List.mem_map.1 hx
    exact (hflat b (List.mem_of_mem_drop hb)).close
  cases h with
  | simple n => exact hcloses n
  | weighted n => exact hcloses n
  | middleBand n multiplier => exact hcloses n
  | exponential n => exact List.forall_mem_map.2 fun b hb => (hflat b hb).close
  | trueRange n =>
    refine List.forall_mem_map.2 fun ⟨b, previous⟩ hb => ?_
    obtain ⟨hmem, hprevious⟩ := mem_withPrevious hb
    exact (hflat b hmem).trueRange fun p hp => hflat p (hprevious p hp)
  | volumeWeighted =>
    refine List.forall_mem_map.2 fun b hb => ?_
    rw [Bar.typicalPrice, (hflat b hb).high, (hflat b hb).low, (hflat b hb).close,
      Amount.whole_exact]
    change (price + price + price) / ((3 : ℕ) : K) = price
    push_cast
    ring

-- The bands at a bar: the lower one is not above the middle and the upper one is not below it.
-- They meet where the closes are all the same.
structure BandsAt (s : Spec K) (bars : List (Bar K)) (i : Nat) (closes : List K)
    (upper middle lower : K) : Prop where
  gives_upper : s.Gives bars i .upper upper
  gives_middle : s.Gives bars i .middle middle
  gives_lower : s.Gives bars i .lower lower
  lower_le : lower ≤ middle
  le_upper : middle ≤ upper
  meet : (∃ close, ∀ x ∈ closes, x = close) → lower = middle ∧ middle = upper

theorem exists_bands (hroot : ∀ x : K, 0 ≤ x → 0 ≤ Roots.sqrt x) (hzero : Roots.sqrt (0 : K) = 0)
    {n : Nat} {multiplier : K} (hs : (Spec.bollinger n multiplier).Valid) {bars : List (Bar K)}
    {i : Nat} (hi : i < bars.length) (hfull : n ≤ i + 1) :
    ∃ upper middle lower, BandsAt (.bollinger n multiplier) bars i
      (lastCloses n (bars.take (i + 1))) upper middle lower := by
  obtain ⟨hupper, hmiddle, hlower⟩ := bollinger_gives hs hfull hi
  have hband := mul_nonneg (not_lt.1 hs.2.2)
    (hroot _ (variance_nonneg (lastCloses n (bars.take (i + 1)))))
  refine ⟨_, _, _, hupper, hmiddle, hlower, sub_le_self _ hband, le_add_of_nonneg_right hband, ?_⟩
  rintro ⟨close, hcloses⟩
  rw [variance_eq_zero hcloses, hzero, mul_zero, sub_zero, add_zero]
  exact ⟨rfl, rfl⟩

-- Every average is between the least and the greatest of what it averages, so it is the price
-- where there was one price. Of roots it is known only that they are not negative and that the
-- root of zero is zero.
theorem averages_within_data (hroot : ∀ x : K, 0 ≤ x → 0 ≤ Roots.sqrt x)
    (hzero : Roots.sqrt (0 : K) = 0) {bars : List (Bar K)} {i : Nat} (hi : i < bars.length) :
    (∀ s f data, Averages s f data → s.Valid → s.warmUp ≤ i →
      (s = .vwap → ∀ b ∈ bars.take (i + 1), 0 ≤ b.volume) →
      ∃ v, s.Gives bars i f v ∧ Between (data (bars.take (i + 1))) v ∧
        ∀ price, (∀ b ∈ bars.take (i + 1), Flat price b) →
          v = if s.kind = .windowed .atr then 0 else price) ∧
    ∀ n multiplier, (Spec.bollinger n multiplier).Valid → n ≤ i + 1 →
      ∃ upper middle lower, BandsAt (.bollinger n multiplier) bars i
        (lastCloses n (bars.take (i + 1))) upper middle lower := by
  refine ⟨fun s f data haverage hs hwarm hvolume => ?_, fun n multiplier hs hfull =>
    exists_bands hroot hzero hs hi hfull⟩
  obtain ⟨v, hv, hbetween⟩ := exists_average haverage hs hi hwarm hvolume
  exact ⟨v, hv, hbetween, fun price hflat => hbetween.eq_of_forall_eq (haverage.data_flat hflat)⟩

section Rational

attribute [local instance] Roots.untaken

-- The day without trades counts as a price and not as a volume.
theorem averages_within_data_swinging :
    (∀ x : ℚ, 0 ≤ x → 0 ≤ Roots.sqrt x) ∧ Roots.sqrt (0 : ℚ) = 0 ∧
      (∀ b ∈ swinging, 0 ≤ b.volume) ∧ (Spec.bollinger 3 (2 : ℚ)).Valid ∧
      (∃ v, (Spec.vwap : Spec ℚ).Gives swinging 3 .value v ∧ Between [31 / 3, 14, 10, 11] v) ∧
      ∃ upper middle lower, BandsAt (.bollinger 3 2) swinging 3 [16, 7, 13] upper middle lower := by
  have hroot : ∀ x : ℚ, 0 ≤ x → 0 ≤ Roots.sqrt x := fun x hx => hx
  have hvolume : ∀ b ∈ swinging, 0 ≤ b.volume := by decide
  have hbands : (Spec.bollinger 3 (2 : ℚ)).Valid := ⟨by decide, rfl, by norm_num⟩
  have hi : 3 < swinging.length := by decide
  obtain ⟨haverages, hcase⟩ := averages_within_data hroot rfl hi
  obtain ⟨v, hv, hbetween, -⟩ :=
    haverages _ _ _ .volumeWeighted trivial (Nat.zero_le 3) fun _ => hvolume
  have hprices : (swinging.take (3 + 1)).map Bar.typicalPrice = [31 / 3, 14, 10, 11] := by
    decide +kernel
  exact ⟨hroot, rfl, hvolume, hbands, ⟨v, hv, hprices ▸ hbetween⟩, hcase 3 2 hbands (by decide)⟩

end Rational

end Exact

end BarReplay
