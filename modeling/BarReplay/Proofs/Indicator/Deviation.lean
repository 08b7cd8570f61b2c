import Mathlib.Algebra.Order.BigOperators.Group.List
import BarReplay.Proofs.Amount.Settling
import BarReplay.Proofs.Amount.Untouched
import BarReplay.Proofs.Decimal.Quotients
import BarReplay.Proofs.Indicator.Table

namespace BarReplay

open Decimal Decimal.Binary64

namespace Amount

-- Arithmetic with squares and powers that somebody else computes.
@[reducible] def withPowers {α : Type} (A : Amount α) (square : α → Except Fault α)
    (power : α → α → Except Fault α) : Amount α :=
  { A with square := square, power := power }

section WithPowers

variable {α : Type} [A : Amount α] (square : α → Except Fault α) (power : α → α → Except Fault α)

-- They take no part in comparisons,
theorem same_withPowers (x y : α) : @same α (A.withPowers square power) x y = same x y :=
  rfl

theorem spec_same_withPowers (s t : Indicator.Spec α) :
    @Indicator.Spec.same α (A.withPowers square power) s t = s.same t :=
  rfl

-- and none in sums.
theorem exactSum_withPowers (xs : List α) :
    @exactSum α (A.withPowers square power) xs = exactSum xs :=
  exactSum_withOperations A.div square power xs

end WithPowers

-- Doubles with powers of that kind,
@[reducible] def powered (pow : Float → Float → Float) : Amount Float :=
  instAmountFloat.withPowers (fun x => Double.guarded x.isFinite (pow x 2.0))
    fun x y => Double.guarded (x.isFinite && y.isFinite) (pow x y)

-- of which those of the running programs are a case.
theorem powered_pow : powered Float.pow = instAmountFloat :=
  rfl

theorem same_powered (pow : Float → Float → Float) (x y : Float) :
    @same Float (powered pow) x y = same x y :=
  same_withPowers _ _ x y

theorem spec_same_powered (pow : Float → Float → Float) (s t : Indicator.Spec Float) :
    @Indicator.Spec.same Float (powered pow) s t = s.same t :=
  spec_same_withPowers _ _ s t

-- What is relied on of a square: it is not below zero, and infinite where it is beyond the largest
-- number.
structure Squares (pow : Float → Float → Float) : Prop where
  nonneg : ∀ x : Float, x.isFinite = true → 0 ≤ pow x 2.0
  overflow : ∀ x : Float, x.isFinite = true → whole (2 ^ 512) ≤ x.abs → (pow x 2.0).isInf = true

variable {pow : Float → Float → Float}

-- The bound is a double itself.
theorem units_squareLimit : (whole (2 ^ 512) : Float).isFinite = true ∧
    Double.units (whole (2 ^ 512)) = 2 ^ 1586 := by
  have hword : nearestBits (2 ^ 512) 1 = 1535 * 2 ^ 52 := by decide +kernel
  change (nearest false (2 ^ 512) 1).isFinite = true ∧ Double.units (nearest false (2 ^ 512) 1) = _
  rw [nearest, hword, signed, if_neg Bool.false_ne_true]
  obtain ⟨hpos, hunpack⟩ := unpack_ofBits (by decide : 2 ^ 52 ≤ 1535 * 2 ^ 52) (by decide)
  have hmantissa : 1535 * 2 ^ 52 % 2 ^ 52 = 0 := by decide
  have hexponent : (((1535 * 2 ^ 52 / 2 ^ 52 : ℕ) : ℤ) - 1075 + 1074).toNat = 1534 := by decide
  refine ⟨congrArg Float.Model.UnpackedFloat.isFinite hunpack, ?_⟩
  change Binary64.units (Float.ofBits _).toModel.unpack = _
  rw [hunpack, units_finite, hmantissa, hexponent, add_zero, Nat.cast_pow]
  exact (pow_add 2 52 1534).symm

-- A finite number whose square is finite as well is less than that.
theorem Squares.abs_units_lt (hpow : Squares pow) {x : Float} (hx : x.isFinite = true)
    (h : (pow x 2.0).isInf = false) : |Double.units x| < 2 ^ 1586 := by
  obtain ⟨hlimit, hunits⟩ := units_squareLimit
  rw [← hunits, ← not_le, ← Double.units_abs,
    ← Double.le_iff_units hlimit ((Double.isFinite_abs x).trans hx)]
  intro hle
  rw [hpow.overflow x hx hle] at h
  cases h

-- A number times itself is such a square.
theorem squares_mul : Squares fun x _ => x * x where
  nonneg _ hx := (Double.mul_self hx).1
  overflow x hx hle := by
    obtain ⟨hlimit, hunits⟩ := units_squareLimit
    rw [Double.le_iff_units hlimit ((Double.isFinite_abs x).trans hx), Double.units_abs,
      hunits] at hle
    exact (Double.mul_self hx).2 hle

end Amount

-- Numbers around an average of theirs. None is so far from it that the difference is too large:
-- it would be on the other side of zero, and the others could not make up for it.
section Around

variable {zs : List ℤ} {μ s : ℤ}

theorem sum_le {bound : ℤ} (hzs : ∀ z ∈ zs, z - μ ≤ bound) :
    zs.sum ≤ zs.length * (μ + bound) := by
  induction zs with
  | nil => simp
  | cons z zs ih =>
    obtain ⟨hz, hzs⟩ := List.forall_mem_cons.1 hzs
    have hrest := ih hzs
    rw [List.sum_cons, List.length_cons]
    push_cast
    linarith

-- One number that is farther away than the others.
theorem sum_le_of_mem {bound far z : ℤ} (hzs : ∀ z ∈ zs, z - μ ≤ bound) (hz : z ∈ zs)
    (hfar : z - μ ≤ far) :
    zs.sum ≤ zs.length * (μ + bound) - bound + far := by
  obtain ⟨before, after, rfl⟩ := List.append_of_mem hz
  have hbefore := sum_le fun y hy => hzs y (List.mem_append_left _ hy)
  have hafter := sum_le fun y hy => hzs y (List.mem_append_right _ (List.mem_cons_of_mem _ hy))
  rw [List.sum_append, List.sum_cons, List.length_append, List.length_cons]
  push_cast
  linarith

theorem around_of_pos {half bound : ℤ} (hunit : 2 ^ 52 ≤ bound) (hbound : 8 * bound ≤ half)
    (hμ : 0 < μ) (hs : 0 ≤ s) (hlt : s < 2 ^ 54 * half)
    (hmean : 2 ^ 52 ≤ μ → 4 * (μ * zs.length) ≤ 5 * s) (hsum : Amount.Near s zs.sum)
    (hlargest : ∀ z ∈ zs, |z| ≤ 2 ^ 54 * half - 2 * half)
    (hnear : ∀ z ∈ zs, |z - μ| < 2 ^ 54 * half - half → |z - μ| ≤ bound) :
    ∀ z ∈ zs, |z - μ| < 2 ^ 54 * half - half := by
  -- what is not near is below
  have hside : ∀ z ∈ zs, z - μ ≤ bound ∧
      (2 ^ 54 * half - half ≤ |z - μ| → z - μ ≤ -(2 ^ 54 * half - half)) := by
    intro z hz
    have hle := (abs_le.1 (hlargest z hz)).2
    have hcases := abs_cases (z - μ)
    have hnear := hnear z hz
    constructor
    · by_contra hgt
      have := hnear (by omega)
      omega
    · intro hfar
      omega
  intro z hz
  by_contra hfar
  have hfar := (hside z hz).2 (not_lt.1 hfar)
  have hle := sum_le_of_mem (fun z hz => (hside z hz).1) hz hfar
  have hμhalf : half ≤ μ := by
    have := abs_le.1 (hlargest z hz)
    linarith
  have hmean := hmean (by linarith)
  have hspread : zs.length * (8 * bound) ≤ zs.length * μ :=
    mul_le_mul_of_nonneg_left (hbound.trans hμhalf) (Nat.cast_nonneg _)
  rw [Amount.Near, abs_of_nonneg hs] at hsum
  have hloss := le_abs_self (s - zs.sum)
  linarith

theorem around {half bound : ℤ} (hunit : 2 ^ 52 ≤ bound) (hbound : 8 * bound ≤ half)
    (hlt : |s| < 2 ^ 54 * half) (hpos : 0 ≤ s → 0 ≤ μ) (hneg : s ≤ 0 → μ ≤ 0)
    (hmean : 2 ^ 52 ≤ |μ| → 4 * (|μ| * zs.length) ≤ 5 * |s|) (hsum : Amount.Near s zs.sum)
    (hlargest : ∀ z ∈ zs, |z| ≤ 2 ^ 54 * half - 2 * half)
    (hnear : ∀ z ∈ zs, |z - μ| < 2 ^ 54 * half - half → |z - μ| ≤ bound) :
    ∀ z ∈ zs, |z - μ| < 2 ^ 54 * half - half := by
  obtain hμ | rfl | hμ := lt_trichotomy μ 0
  · have hs : s < 0 := not_le.1 fun hs => absurd (hpos hs) (not_le.2 hμ)
    rw [abs_of_neg hμ, abs_of_neg hs] at hmean
    have hopposite (z : ℤ) : |-z - -μ| = |z - μ| := by rw [neg_sub_neg, abs_sub_comm]
    have hsum' : Amount.Near (-s) (zs.map (- ·)).sum := by
      rw [← List.sum_neg, Amount.Near, neg_sub_neg, abs_sub_comm, abs_neg]
      exact hsum
    have hmean' : 2 ^ 52 ≤ -μ → 4 * (-μ * (zs.map (- ·)).length) ≤ 5 * -s := by
      rwa [List.length_map]
    rw [abs_of_neg hs] at hlt
    have hall := around_of_pos hunit hbound (neg_pos.2 hμ) (neg_pos.2 hs).le hlt hmean' hsum'
      (by simpa only [List.forall_mem_map, abs_neg] using hlargest)
      (by simpa only [List.forall_mem_map, hopposite] using hnear)
    simpa only [List.forall_mem_map, hopposite] using hall
  · intro z hz
    rw [sub_zero]
    linarith [hlargest z hz]
  · have hs : 0 < s := not_le.1 fun hs => absurd (hneg hs) (not_le.2 hμ)
    rw [abs_of_pos hμ, abs_of_pos hs] at hmean
    rw [abs_of_pos hs] at hlt
    exact around_of_pos hunit hbound hμ hs.le hlt hmean hsum hlargest hnear

end Around

namespace Amount

variable {pow : Float → Float → Float} {xs : List Float}

-- Finite numbers have a finite average.
theorem average_isFinite (hne : xs ≠ []) (hxs : ∀ x ∈ xs, x.isFinite = true) {total : Float}
    (h : exactSum xs = .ok total) : (total / whole xs.length).isFinite = true :=
  (Double.div_count (exactSum_near hxs h).1 (List.length_pos_iff.2 hne).ne').1

-- The differences from it are finite, if they are small where they are finite.
theorem differences_isFinite (hne : xs ≠ []) (hxs : ∀ x ∈ xs, x.isFinite = true) {total : Float}
    (h : exactSum xs = .ok total) (hnear : ∀ x ∈ xs, (x - total / whole xs.length).isFinite = true →
      |Double.units x - Double.units (total / whole xs.length)| ≤ 2 ^ 1587) :
    ∀ x ∈ xs, (x - total / whole xs.length).isFinite = true := by
  have hmean := average_isFinite hne hxs h
  obtain ⟨htotal, hsum⟩ := exactSum_near hxs h
  obtain ⟨-, hpos, hneg, hrelative⟩ := Double.div_count htotal (List.length_pos_iff.2 hne).ne'
  have hunit : (2 : ℤ) ^ 52 ≤ 2 ^ 1587 := pow_le_pow_right₀ one_le_two (by omega)
  have hbound : 8 * (2 : ℤ) ^ 1587 ≤ halfStep :=
    (pow_add (2 : ℤ) 3 1587).symm.le.trans (pow_le_pow_right₀ one_le_two (by omega))
  intro x hx
  refine Double.isFinite_sub (hxs x hx) hmean ?_
  refine around hunit hbound (Double.abs_units_lt htotal) hpos hneg
    (by rwa [List.length_map]) hsum ?_ ?_ _ (List.mem_map_of_mem hx)
  · exact List.forall_mem_map.2 fun y hy =>
      abs_le_largest (Double.fits_units (hxs y hy)) (Double.abs_units_lt (hxs y hy))
  · exact List.forall_mem_map.2 fun y hy hlt =>
      hnear y hy (Double.isFinite_sub (hxs y hy) hmean hlt)

-- A square that is not refused.
theorem Squares.of_guarded (hpow : Squares pow) {d q : Float} (hd : d.isFinite = true)
    (h : Double.guarded d.isFinite (pow d 2.0) = .ok q) :
    q.isFinite = true ∧ 0 ≤ Double.units q ∧ |Double.units d| < 2 ^ 1586 := by
  have hnonneg := hpow.nonneg d hd
  have hinf : (pow d 2.0).isInf = false := by
    rw [← Bool.not_eq_true]
    intro hinf
    rw [Double.guarded, hd, hinf] at h
    cases h
  have hq : pow d 2.0 = q := by
    rw [Double.guarded, hinf, Bool.and_false] at h
    cases h
    rfl
  have hnan : (pow d 2.0).isNaN = false := by
    rw [← Bool.not_eq_true]
    exact fun hnan => (Double.not_le_iff 0 _).2 (.inr (.inr hnan)) hnonneg
  have hfinite := (Double.isFinite_iff _).2 ⟨hnan, hinf⟩
  rw [← hq]
  exact ⟨hfinite, (Double.le_iff_units rfl hfinite).1 hnonneg, hpow.abs_units_lt hd hinf⟩

theorem Near.nonneg {r z : ℤ} (h : Near r z) (hz : 0 ≤ z) : 0 ≤ r := by
  unfold Near at h
  have hdistance := abs_nonneg (r - z)
  have hcases := abs_cases r
  have hcases' := abs_cases (r - z)
  omega

-- The results of a list of calculations.
theorem results_of_mapM {β γ : Type} {f : β → Except Fault γ} {xs : List β} {ys : List γ}
    (h : xs.mapM f = .ok ys) :
    (∀ x ∈ xs, ∃ y, f x = .ok y) ∧ ∀ y ∈ ys, ∃ x ∈ xs, f x = .ok y := by
  induction xs generalizing ys with
  | nil =>
    cases h
    exact ⟨nofun, nofun⟩
  | cons x xs ih =>
    rw [List.mapM_cons] at h
    obtain ⟨y, hy, h⟩ := except_bind_eq_ok.1 h
    obtain ⟨rest, hrest, h⟩ := except_bind_eq_ok.1 h
    cases h
    obtain ⟨hxs, hys⟩ := ih hrest
    refine ⟨List.forall_mem_cons.2 ⟨⟨y, hy⟩, hxs⟩,
      List.forall_mem_cons.2 ⟨⟨x, List.mem_cons_self, hy⟩, fun z hz => ?_⟩⟩
    obtain ⟨w, hw, hwz⟩ := hys z hz
    exact ⟨w, List.mem_cons_of_mem _ hw, hwz⟩

theorem units_nonneg (h : ∀ x ∈ xs, 0 ≤ Double.units x) : 0 ≤ ExactSum.units xs := by
  refine List.sum_nonneg fun z hz => ?_
  obtain ⟨x, hx, rfl⟩ := List.mem_map.1 hz
  exact h x hx

-- The mean and the deviation of finite closes are finite, where they are there.
theorem populationStats_finite (hpow : Squares pow) (hne : xs ≠ [])
    (hxs : ∀ x ∈ xs, x.isFinite = true) {mean deviation : Float}
    (h : @Indicator.populationStats Float (powered pow) xs = .ok (mean, deviation)) :
    mean.isFinite = true ∧ deviation.isFinite = true := by
  obtain ⟨total, htotal, h⟩ := except_bind_eq_ok.1 h
  obtain ⟨squares, hsquares, h⟩ := except_bind_eq_ok.1 h
  obtain ⟨squaresTotal, hsquaresTotal, h⟩ := except_bind_eq_ok.1 h
  cases h
  rw [exactSum_withPowers] at htotal hsquaresTotal
  obtain ⟨hanswered, hsquares⟩ := results_of_mapM hsquares
  have hmean := average_isFinite hne hxs htotal
  have hdifferences := differences_isFinite hne hxs htotal fun x hx hfinite => by
    obtain ⟨q, hq⟩ := hanswered x hx
    have hsmall := (hpow.of_guarded hfinite hq).2.2
    have htwice := (Double.rounded_sub (hxs x hx) hmean hfinite).abs_le_two_mul
    have hpower : (2 : ℤ) ^ 1587 = 2 * 2 ^ 1586 := pow_succ' 2 1586
    rw [hpower]
    generalize (2 : ℤ) ^ 1586 = limit at *
    linarith only [hsmall, htwice]
  have hsquare : ∀ q ∈ squares, q.isFinite = true ∧ 0 ≤ Double.units q := by
    intro q hq
    obtain ⟨x, hx, hq⟩ := hsquares q hq
    obtain ⟨hfinite, hnonneg, -⟩ := hpow.of_guarded (hdifferences x hx) hq
    exact ⟨hfinite, hnonneg⟩
  obtain ⟨hfinite, hnear⟩ := exactSum_near (fun q hq => (hsquare q hq).1) hsquaresTotal
  have hnonneg := hnear.nonneg (units_nonneg fun q hq => (hsquare q hq).2)
  obtain ⟨hvariance, hpos, -⟩ := Double.div_count hfinite (List.length_pos_iff.2 hne).ne'
  exact ⟨hmean, Double.isFinite_sqrt hvariance (hpos hnonneg)⟩

end Amount

namespace Indicator

open Amount

variable {pow : Float → Float → Float}

-- Points that are equal as numbers.
structure Point.Same (p q : Point Float) : Prop where
  date : p.date = q.date
  valid : p.valid = q.valid
  reading : ∀ f, Option.Rel (fun x y => same x y = true) (p.reading.get? f) (q.reading.get? f)

theorem closeStats?_finite (hpow : Squares pow) {period : Nat} (hperiod : 1 ≤ period)
    {m : Moment Float} (hcloses : ∀ b ∈ m.bar :: m.earlier, b.close.isFinite = true)
    {middle deviation : Float}
    (h : @closeStats? Float (powered pow) period m = .ok (some (middle, deviation))) :
    middle.isFinite = true ∧ deviation.isFinite = true := by
  unfold closeStats? at h
  split at h
  · obtain ⟨stats, hstats, h⟩ := except_bind_eq_ok.1 h
    cases h
    refine populationStats_finite hpow ?_ ?_ hstats
    · obtain ⟨n, rfl⟩ : ∃ n, period = n + 1 := ⟨period - 1, by omega⟩
      simp [Moment.window]
    · intro x hx
      obtain ⟨b, hb, rfl⟩ := List.mem_map.1 hx
      exact hcloses b (List.mem_of_mem_take (List.mem_reverse.1 hb))
  · cases h

-- Bands without a width around finite closes are the same numbers, whichever zero the width is.
theorem bollinger_same (hpow : Squares pow) {period : Nat} (hperiod : 1 ≤ period) {a b : Float}
    (ha : same a 0 = true) (hb : same b 0 = true) {bars : List (Bar Float)}
    (hbars : ∀ x ∈ bars, x.close.isFinite = true) {points : List (Point Float)}
    (h : (@bollinger Float (powered pow) period a).run bars = .ok points) :
    ∃ points', (@bollinger Float (powered pow) period b).run bars = .ok points' ∧
      List.Forall₂ Point.Same points points' := by
  have hstep : ∀ state m next valid reading,
      (∀ x ∈ m.bar :: m.earlier, x.close.isFinite = true) →
      (@bollinger Float (powered pow) period a).step state m = .ok (next, valid, reading) →
      ∃ reading', (@bollinger Float (powered pow) period b).step state m =
          .ok (next, valid, reading') ∧
        ∀ f, Option.Rel (fun x y => same x y = true) (reading.get? f) (reading'.get? f) := by
    intro state m next valid reading hcloses hs
    obtain ⟨stats, hstats, hs⟩ := except_bind_eq_ok.1 hs
    cases stats with
    | none =>
      cases hs
      refine ⟨_, except_bind_eq_ok.2 ⟨_, hstats, rfl⟩, fun f => ?_⟩
      have hzero : same (0 : Float) 0 = true := Double.same_self rfl
      cases f <;> first | exact .none | exact .some hzero
    | some stats =>
      cases hs
      refine ⟨_, except_bind_eq_ok.2 ⟨_, hstats, rfl⟩, fun f => ?_⟩
      obtain ⟨hmiddle, hdeviation⟩ := closeStats?_finite hpow hperiod hcloses hstats
      obtain ⟨hband, hzero⟩ := Double.mul_of_same_zero hdeviation ha
      obtain ⟨hband', hzero'⟩ := Double.mul_of_same_zero hdeviation hb
      cases f with
      | upper =>
        obtain ⟨hfinite, hunits⟩ := Double.add_of_units_zero hmiddle hband hzero
        obtain ⟨hfinite', hunits'⟩ := Double.add_of_units_zero hmiddle hband' hzero'
        exact .some ((Double.same_iff_units hfinite hfinite').2 (hunits.trans hunits'.symm))
      | middle => exact .some (Double.same_self hmiddle)
      | lower =>
        obtain ⟨hfinite, hunits⟩ := Double.sub_of_units_zero hmiddle hband hzero
        obtain ⟨hfinite', hunits'⟩ := Double.sub_of_units_zero hmiddle hband' hzero'
        exact .some ((Double.same_iff_units hfinite hfinite').2 (hunits.trans hunits'.symm))
      | _ => exact .none
  obtain ⟨state, hstart, h⟩ := except_bind_eq_ok.1 h
  obtain ⟨points', hpoints', hrel⟩ := Study.walk_rel hstep (List.forall_mem_nil _) hbars h
  exact ⟨points', except_bind_eq_ok.2 ⟨state, hstart, hpoints'⟩,
    hrel.imp fun _ _ ⟨hdate, hvalid, hreading⟩ => ⟨hdate, hvalid, hreading⟩⟩

-- So is what is read from their series.
theorem bollinger_series_same (hpow : Squares pow) {period : Nat} (hperiod : 1 ≤ period)
    {a b : Float} (ha : same a 0 = true) (hb : same b 0 = true) {bars : List (Bar Float)}
    (hbars : ∀ x ∈ bars, x.close.isFinite = true) {series : Series Float}
    (h : @Spec.series Float (powered pow) (.bollinger period a) bars = .ok series) :
    ∃ series', @Spec.series Float (powered pow) (.bollinger period b) bars = .ok series' ∧
      List.Forall₂ Point.Same series.points series'.points ∧
      ∀ index f, Option.Rel (fun x y => same x y = true) (series.valueAt? index f)
        (series'.valueAt? index f) := by
  obtain ⟨points, hpoints, h⟩ := except_bind_eq_ok.1 h
  cases h
  obtain ⟨points', hpoints', hsame⟩ := bollinger_same hpow hperiod ha hb hbars hpoints
  refine ⟨_, except_bind_eq_ok.2 ⟨points', hpoints', rfl⟩, hsame, fun index f => ?_⟩
  exact Series.valueAt?_rel (hsame.imp fun _ _ hp => ⟨hp.valid, hp.reading⟩) index f

end Indicator

end BarReplay
