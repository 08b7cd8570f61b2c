import BarReplay.Proofs.Amount.Splitting

namespace BarReplay.Amount

open Decimal Decimal.Binary64 Double

-- A number that ends before another one begins is less than half of it,
theorem two_mul_abs_lt {p q : ℤ} (h : 2 ^ (bitLength p + 1) ∣ q) (hq : q ≠ 0) :
    2 * |p| < |q| := by
  have hp : |p| < 2 ^ bitLength p := bitLength_le_iff.1 le_rfl
  have hle := Int.le_of_dvd (abs_pos.2 hq) ((dvd_abs _ _).2 h)
  rw [pow_succ'] at hle
  linarith

-- and the sum of the two is not too large.
theorem abs_add_lt_of_apart {p q : ℤ} (hq : Fits q) (hlt : |q| < ceiling)
    (h : 2 ^ (bitLength p + 1) ∣ q) (hne : q ≠ 0) : |q + p| < ceiling - halfStep := by
  have hp : |p| < 2 ^ bitLength p := bitLength_le_iff.1 le_rfl
  have hadd := abs_add_le q p
  have hpos := halfStep_pos
  obtain hle | hgt := le_or_gt (bitLength p) 2044
  · have hlargest := abs_le_largest hq hlt
    have hpower : (2 : ℤ) ^ bitLength p ≤ halfStep := pow_le_pow_right₀ one_le_two hle
    linarith
  · have hle := Int.le_of_dvd (abs_pos.2 hne) ((dvd_abs _ _).2 h)
    have hlength := lt_of_two_pow_lt_ceiling (hle.trans_lt hlt)
    have hceiling := two_pow_dvd_ceiling hlength.le
    have hroom := Int.le_of_dvd (sub_pos.2 hlt) (dvd_sub hceiling ((dvd_abs _ _).2 h))
    have hpower : halfStep ≤ 2 ^ bitLength p := pow_le_pow_right₀ one_le_two (by omega)
    rw [pow_succ'] at hroom
    linarith

-- A whole number that has the first digits of another one.
def Near (r z : ℤ) : Prop :=
  2 ^ 48 * |r - z| ≤ |r|

theorem near_of_le {m t z σ : ℤ} (hz : 2 ^ 53 * |z - t| ≤ |z|) (hσ : |σ| ≤ |z - t|)
    (hm : |m - t| ≤ 4 * |z - t|) : Near m (z + σ) := by
  have herror : |m - (z + σ)| ≤ 6 * |z - t| := by
    have hsplit : m - (z + σ) = m - t - (z - t + σ) := by ring
    have hfirst := abs_sub (m - t) (z - t + σ)
    have hsecond := abs_add_le (z - t) σ
    rw [← hsplit] at hfirst
    linarith
  have hsize : |z| ≤ |m| + |m - (z + σ)| + |σ| := by
    have hsplit : z = m - (m - (z + σ)) - σ := by ring
    have hfirst := abs_sub (m - (m - (z + σ))) σ
    have hsecond := abs_sub m (m - (z + σ))
    rw [← hsplit] at hfirst
    linarith
  have hnonneg := abs_nonneg (z - t)
  unfold Near
  linarith

namespace ExactSum

-- Parts, the largest first, of which each begins above the end of those after it.
abbrev Descending (parts : List Float) : Prop :=
  parts.Pairwise fun q p => 2 ^ (bitLength (Double.units p) + 1) ∣ Double.units q

-- They are outweighed by the first of them.
theorem abs_units_le {y : Float} {rest : List Float} (h : Descending (y :: rest))
    (hne : ∀ p ∈ y :: rest, Double.units p ≠ 0) :
    |units (y :: rest)| ≤ 2 * |Double.units y| := by
  induction rest generalizing y with
  | nil =>
    rw [units_cons, units, List.map_nil, List.sum_nil, add_zero]
    have := abs_nonneg (Double.units y)
    linarith
  | cons w rest ih =>
    obtain ⟨hfirst, hrest⟩ := List.pairwise_cons.1 h
    obtain ⟨hy, hne⟩ := List.forall_mem_cons.1 hne
    have hw := two_mul_abs_lt (hfirst w List.mem_cons_self) hy
    have htail := ih hrest hne
    have hadd := abs_add_le (Double.units y) (units (w :: rest))
    rw [units_cons]
    linarith

-- What settling one part more can come to.
theorem settle_cons (hi y : Float) (rest : List Float) :
    (same (y - (hi + y - hi)) 0 = true ∧ settle hi (y :: rest) = settle (hi + y) rest) ∨
      same (y - (hi + y - hi)) 0 ≠ true ∧ (settle hi (y :: rest) = hi + y ∨
        same ((y - (hi + y - hi)) * whole 2)
            (hi + y + (y - (hi + y - hi)) * whole 2 - (hi + y)) = true ∧
          settle hi (y :: rest) = hi + y + (y - (hi + y - hi)) * whole 2) := by
  by_cases hzero : same (y - (hi + y - hi)) 0 = true
  · exact .inl ⟨hzero, if_pos hzero⟩
  refine .inr ⟨hzero, ?_⟩
  cases rest with
  | nil => exact .inl (if_neg hzero)
  | cons z rest =>
    by_cases hside : (y - (hi + y - hi) < 0 ∧ z < 0) ∨ (0 < y - (hi + y - hi) ∧ 0 < z)
    · by_cases htie : same ((y - (hi + y - hi)) * whole 2)
        (hi + y + (y - (hi + y - hi)) * whole 2 - (hi + y)) = true
      · exact .inr ⟨htie, (if_neg hzero).trans ((if_pos hside).trans (if_pos htie))⟩
      · exact .inl ((if_neg hzero).trans ((if_pos hside).trans (if_neg htie)))
    · exact .inl ((if_neg hzero).trans (if_neg hside))

theorem abs_units_le_of_above {rest : List Float} {lo : ℤ} (hlo : lo ≠ 0)
    (h : Descending rest) (hne : ∀ p ∈ rest, Double.units p ≠ 0)
    (habove : ∀ p ∈ rest, 2 ^ (bitLength (Double.units p) + 1) ∣ lo) : |units rest| ≤ |lo| := by
  cases rest with
  | nil => exact abs_nonneg lo
  | cons w rest =>
    have hfirst := two_mul_abs_lt (habove w List.mem_cons_self) hlo
    have htail := abs_units_le h hne
    linarith

-- The correction of a tie is small as well, where it is made.
theorem near_of_moved {t lo : Float} {z : ℤ} (ht : t.isFinite = true) (hlo : lo.isFinite = true)
    (hrounded : Rounded z (Double.units t)) (hunits : Double.units lo = z - Double.units t)
    (hne : z ≠ Double.units t) (hz : |z| < ceiling)
    (hmoved : same (lo * whole 2) (t + lo * whole 2 - t) = true) :
    (t + lo * whole 2).isFinite = true ∧
      |Double.units (t + lo * whole 2) - Double.units t| ≤ 4 * |z - Double.units t| := by
  have hsmall := hrounded.error_small hne
  have hdouble : |2 * Double.units lo| < ceiling := by
    rw [abs_mul, abs_two, hunits]
    have := abs_nonneg (z - Double.units t)
    linarith
  obtain ⟨htwice, htwo⟩ := mul_two hlo hdouble
  -- what is infinite moves by more than that
  have hfinite : (t + lo * whole 2).isFinite = true := by
    cases hinf : (t + lo * whole 2).isFinite with
    | true => rfl
    | false =>
      have hback := isInf_add_of_isInf (isInf_add ht htwice hinf) ((isFinite_neg t).trans ht)
      rw [← sub_eq_add_neg] at hback
      have heq := isFinite_eq_of_same hmoved
      rw [htwice, isFinite_of_isInf hback] at heq
      cases heq
  refine ⟨hfinite, ?_⟩
  have herror := (rounded_add ht htwice hfinite).error_le_right (fits_units ht)
  rw [htwo, hunits] at herror
  generalize Double.units (t + lo * whole 2) = m at *
  have hsplit : m - Double.units t = 2 * (z - Double.units t) -
      (Double.units t + 2 * (z - Double.units t) - m) := by ring
  have htriangle := abs_sub (2 * (z - Double.units t))
    (Double.units t + 2 * (z - Double.units t) - m)
  rw [← hsplit] at htriangle
  rw [abs_mul, abs_two] at herror htriangle
  linarith

-- Settled parts have the first digits of their sum, and are as finite as the parts.
theorem settle_spec {hi : Float} {rest : List Float} (hhi : hi.isFinite = true)
    (hrest : ∀ p ∈ rest, p.isFinite = true) (hne : ∀ p ∈ hi :: rest, Double.units p ≠ 0)
    (h : Descending (hi :: rest)) :
    (settle hi rest).isFinite = true ∧
      Near (Double.units (settle hi rest)) (units (hi :: rest)) := by
  induction rest generalizing hi with
  | nil =>
    refine ⟨hhi, ?_⟩
    rw [units_cons, units, List.map_nil, List.sum_nil, add_zero, settle, Near, sub_self, abs_zero,
      mul_zero]
    exact abs_nonneg _
  | cons y rest ih =>
    obtain ⟨hy, hrest⟩ := List.forall_mem_cons.1 hrest
    obtain ⟨hhine, hne⟩ := List.forall_mem_cons.1 hne
    obtain ⟨hyne, hrestne⟩ := List.forall_mem_cons.1 hne
    obtain ⟨hbelow, hparts⟩ := List.pairwise_cons.1 h
    obtain ⟨hbelow, hlater⟩ := List.forall_mem_cons.1 hbelow
    obtain ⟨hylater, hdescending⟩ := List.pairwise_cons.1 hparts
    have hhalf := two_mul_abs_lt hbelow hhine
    have hroom := abs_add_lt_of_apart (fits_units hhi) (abs_units_lt hhi) hbelow hhine
    have hfinite := isFinite_add hhi hy hroom
    have hle : ¬ hi.abs < y.abs := by
      rw [abs_lt_iff_units hhi hy]
      have := abs_nonneg (Double.units y)
      linarith
    obtain ⟨hlo, hunits⟩ := split_exact hhi hy hle hfinite
    have hrounded := rounded_add hhi hy hfinite
    rw [units_cons, units_cons, ← add_assoc]
    obtain ⟨hzero, hsettle⟩ | ⟨hzero, hsettle⟩ := settle_cons hi y rest
    · have hexact := (same_zero_iff_units hlo).1 hzero
      rw [hunits, sub_eq_zero] at hexact
      have hsum : Double.units (hi + y) ≠ 0 := by
        rw [← hexact]
        intro hzero
        rw [eq_neg_of_add_eq_zero_left hzero, abs_neg] at hhalf
        have := abs_nonneg (Double.units y)
        linarith
      have habove : Descending ((hi + y) :: rest) := by
        refine List.pairwise_cons.2 ⟨fun p hp => ?_, hdescending⟩
        rw [← hexact]
        exact dvd_add (hlater p hp) (hylater p hp)
      rw [hsettle, hexact, ← units_cons]
      exact ih hfinite hrest (List.forall_mem_cons.2 ⟨hsum, hrestne⟩) habove
    · rw [ne_eq, same_zero_iff_units hlo, hunits, sub_eq_zero] at hzero
      have hsmall := hrounded.error_small hzero
      have htail := abs_units_le_of_above (sub_ne_zero.2 hzero) hdescending hrestne fun p hp =>
        dvd_sub (dvd_add (hlater p hp) (hylater p hp))
          (hrounded.dvd (dvd_add (hlater p hp) (hylater p hp)))
      obtain hsettle | ⟨hmoved, hsettle⟩ := hsettle
      · rw [hsettle]
        refine ⟨hfinite, near_of_le hsmall htail ?_⟩
        rw [sub_self, abs_zero]
        exact mul_nonneg zero_le_four (abs_nonneg _)
      · rw [hsettle]
        obtain ⟨hfinite', hmoved⟩ := near_of_moved hfinite hlo hrounded hunits hzero
          (hroom.trans (sub_lt_self _ halfStep_pos)) hmoved
        exact ⟨hfinite', near_of_le hsmall htail hmoved⟩

-- The parts of a running total, settled.
theorem State.Stands.total_near {s : State Float} {z : ℤ} (hs : s.Stands z) {x : Float}
    (h : s.total = .ok x) : x.isFinite = true ∧ Near (Double.units x) z := by
  have hzero : same s.special 0 = true := by
    rw [hs.special]
    rfl
  replace h := (if_pos hzero).symm.trans h
  have hreverse : units s.parts.reverse = z := by
    rw [← hs.total, units, units, List.map_reverse, List.sum_reverse]
  have hdescending : Descending s.parts.reverse := List.pairwise_reverse.2 hs.apart.pairwise
  have hfinite : ∀ p ∈ s.parts.reverse, p.isFinite = true :=
    fun p hp => hs.apart.finite p (List.mem_reverse.1 hp)
  have hne : ∀ p ∈ s.parts.reverse, Double.units p ≠ 0 :=
    fun p hp => hs.apart.ne_zero p (List.mem_reverse.1 hp)
  generalize s.parts.reverse = parts at h hreverse hdescending hfinite hne
  cases parts with
  | nil =>
    cases h
    rw [← hreverse]
    have hzero : Near 0 0 := by simp [Near]
    exact ⟨rfl, hzero⟩
  | cons top rest =>
    cases h
    obtain ⟨htop, hrest⟩ := List.forall_mem_cons.1 hfinite
    rw [← hreverse]
    exact settle_spec htop hrest hne hdescending

end ExactSum

-- The exact sum of finite doubles is finite and has the first digits of the sum of their units.
theorem exactSum_near {xs : List Float} (hxs : ∀ x ∈ xs, x.isFinite = true) {x : Float}
    (h : exactSum xs = .ok x) :
    x.isFinite = true ∧ Near (Double.units x) (ExactSum.units xs) := by
  obtain ⟨s, hs, h⟩ := except_bind_eq_ok.1 h
  have hstands := ExactSum.State.stands_empty.foldlM hxs hs
  rw [zero_add] at hstands
  exact hstands.total_near h

end BarReplay.Amount
