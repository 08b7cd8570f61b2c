import Mathlib.Algebra.BigOperators.Group.List.Basic
import BarReplay.Amount.ExactSum
import BarReplay.Proofs.Decimal.Arithmetic
import BarReplay.Proofs.Except

namespace BarReplay.Amount.ExactSum

open Decimal Decimal.Binary64 Double

variable {x y top : Float} {parts kept : List Float}

-- The sum of finite doubles without rounding, in units.
def units (xs : List Float) : ℤ :=
  (xs.map Double.units).sum

theorem units_cons (x : Float) (xs : List Float) : units (x :: xs) = Double.units x + units xs := by
  rw [units, List.map_cons, List.sum_cons]
  rfl

-- The sum of two doubles, and what rounding it has taken away.
theorem split_exact {a b : Float} (ha : a.isFinite = true) (hb : b.isFinite = true)
    (hab : ¬ a.abs < b.abs) (hsum : (a + b).isFinite = true) :
    (b - (a + b - a)).isFinite = true ∧
      Double.units (b - (a + b - a)) = Double.units a + Double.units b - Double.units (a + b) := by
  rw [abs_lt_iff_units ha hb, not_lt] at hab
  have hrounded := rounded_add ha hb hsum
  have hgain := hrounded.gain_fits (fits_units ha) (fits_units hb) hab
  obtain ⟨hfinite, hunits⟩ := sub_of_fits hsum ha hgain ((hrounded.abs_gain_le hab).trans_lt
    (max_lt (abs_units_lt ha) (abs_units_lt hsum)))
  have hrest := hrounded.rest_fits (fits_units ha) (fits_units hb) hab
  have hsmall := (hrounded.error_le_right (fits_units ha)).trans_lt (abs_units_lt hb)
  have hleft : Double.units b - (Double.units (a + b) - Double.units a) =
      Double.units a + Double.units b - Double.units (a + b) := by ring
  rw [← hunits] at hrest hleft
  rw [← hleft] at hsmall
  obtain ⟨hfinite', hunits'⟩ := sub_of_fits hb hfinite hrest hsmall
  exact ⟨hfinite', hunits'.trans hleft⟩

-- Absorbing takes the larger of two numbers first.
theorem absorb_cons (x y : Float) (parts : List Float) :
    ∃ a b, (a = x ∧ b = y ∨ a = y ∧ b = x) ∧ ¬ a.abs < b.abs ∧
      absorb x (y :: parts) =
        (if same (b - (a + b - a)) 0 then (absorb (a + b) parts).1
          else (b - (a + b - a)) :: (absorb (a + b) parts).1, (absorb (a + b) parts).2) := by
  by_cases hlt : x.abs < y.abs
  · refine ⟨y, x, .inr ⟨rfl, rfl⟩, not_lt_of_le (le_of_lt hlt), ?_⟩
    have habs : Amount.abs x < Amount.abs y := hlt
    simp only [absorb, habs, if_true]
    rfl
  · refine ⟨x, y, .inl ⟨rfl, rfl⟩, hlt, ?_⟩
    have habs : ¬ Amount.abs x < Amount.abs y := hlt
    simp only [absorb, habs, if_false]
    rfl

-- Finite parts, none of them zero, of which each begins above the end of those before it.
structure Apart (parts : List Float) : Prop where
  finite : ∀ p ∈ parts, p.isFinite = true
  ne_zero : ∀ p ∈ parts, Double.units p ≠ 0
  pairwise : parts.Pairwise fun p q => 2 ^ (bitLength (Double.units p) + 1) ∣ Double.units q

-- What is left of such parts and a further number that they have absorbed.
structure Absorbed (x : Float) (parts kept : List Float) (top : Float) : Prop where
  finite : top.isFinite = true
  apart : Apart kept
  above : ∀ k ∈ kept, 2 ^ (bitLength (Double.units k) + 1) ∣ Double.units top
  total : units kept + Double.units top = Double.units x + units parts
  -- zeros at the end that all of them have are not lost
  dvd : ∀ c : ℕ, 2 ^ c ∣ Double.units x → (∀ p ∈ parts, 2 ^ c ∣ Double.units p) →
    (∀ k ∈ kept, 2 ^ c ∣ Double.units k) ∧ 2 ^ c ∣ Double.units top

-- A number that is infinite is carried to the end.
theorem isInf_absorb (hx : x.isInf = true) (hparts : ∀ p ∈ parts, p.isFinite = true) :
    (absorb x parts).2.isInf = true := by
  induction parts generalizing x with
  | nil => exact hx
  | cons y parts ih =>
    obtain ⟨hy, hparts⟩ := List.forall_mem_cons.1 hparts
    have habs : ¬ Amount.abs x < Amount.abs y := not_abs_lt_of_isInf hx y
    simp only [absorb, habs, if_false]
    exact ih (isInf_add_of_isInf hx hy) hparts

section Step

variable {hi lo : Float}

theorem Absorbed.dvd_cons (h : Absorbed hi parts kept top)
    (hrounded : Rounded (Double.units x + Double.units y) (Double.units hi)) {c : ℕ}
    (hx : 2 ^ c ∣ Double.units x) (hparts : ∀ p ∈ y :: parts, 2 ^ c ∣ Double.units p) :
    2 ^ c ∣ Double.units hi ∧ (∀ k ∈ kept, 2 ^ c ∣ Double.units k) ∧ 2 ^ c ∣ Double.units top := by
  obtain ⟨hy, hparts⟩ := List.forall_mem_cons.1 hparts
  have hhi := hrounded.dvd (dvd_add hx hy)
  exact ⟨hhi, h.dvd c hhi hparts⟩

-- One part more is absorbed without an error,
theorem Absorbed.exact (h : Absorbed hi parts kept top)
    (hrounded : Rounded (Double.units x + Double.units y) (Double.units hi))
    (hexact : Double.units x + Double.units y = Double.units hi) :
    Absorbed x (y :: parts) kept top where
  finite := h.finite
  apart := h.apart
  above := h.above
  total := by rw [h.total, units_cons, ← add_assoc, hexact]
  dvd c hx hparts := (h.dvd_cons hrounded hx hparts).2

-- or with one, which ends before the parts that come later begin.
theorem Absorbed.inexact (h : Absorbed hi parts kept top) (hx : x.isFinite = true)
    (hparts : Apart (y :: parts))
    (hrounded : Rounded (Double.units x + Double.units y) (Double.units hi))
    (hlo : lo.isFinite = true)
    (hunits : Double.units lo = Double.units x + Double.units y - Double.units hi)
    (hne : Double.units x + Double.units y ≠ Double.units hi) :
    Absorbed x (y :: parts) (lo :: kept) top := by
  obtain ⟨hbelow, -⟩ := List.pairwise_cons.1 hparts.pairwise
  have hsmall : bitLength (Double.units lo) ≤ bitLength (Double.units y) := by
    rw [hunits]
    exact bitLength_le_of_abs_le (hrounded.error_le_right (fits_units hx))
  have hhi : 2 ^ (bitLength (Double.units lo) + 1) ∣ Double.units hi := by
    rw [hunits]
    exact hrounded.error_apart hne
  obtain ⟨hlater, habove⟩ := h.dvd _ hhi fun p hp =>
    (pow_dvd_pow 2 (by omega)).trans (hbelow p hp)
  refine ⟨h.finite, ⟨?_, ?_, ?_⟩, ?_, ?_, fun c hx hparts => ?_⟩
  · exact List.forall_mem_cons.2 ⟨hlo, h.apart.finite⟩
  · exact List.forall_mem_cons.2 ⟨by rwa [hunits, sub_ne_zero], h.apart.ne_zero⟩
  · exact List.pairwise_cons.2 ⟨hlater, h.apart.pairwise⟩
  · exact List.forall_mem_cons.2 ⟨habove, h.above⟩
  · rw [units_cons, units_cons, add_assoc, h.total, hunits]
    ring
  · obtain ⟨hhi, hkept, htop⟩ := h.dvd_cons hrounded hx hparts
    refine ⟨List.forall_mem_cons.2 ⟨?_, hkept⟩, htop⟩
    rw [hunits]
    exact dvd_sub (dvd_add hx (List.forall_mem_cons.1 hparts).1) hhi

end Step

theorem absorb_spec (hparts : Apart parts) (hx : x.isFinite = true) :
    (absorb x parts).2.isInf = true ∨
      Absorbed x parts (absorb x parts).1 (absorb x parts).2 := by
  induction parts generalizing x with
  | nil =>
    exact .inr ⟨hx, ⟨by simp [absorb], by simp [absorb], .nil⟩, by simp [absorb],
      by simp [absorb, units], fun c hc _ => ⟨by simp [absorb], hc⟩⟩
  | cons y parts ih =>
    obtain ⟨hy, hfinite⟩ := List.forall_mem_cons.1 hparts.finite
    obtain ⟨-, hne⟩ := List.forall_mem_cons.1 hparts.ne_zero
    obtain ⟨-, hpairwise⟩ := List.pairwise_cons.1 hparts.pairwise
    obtain ⟨a, b, hab, hle, habsorb⟩ := absorb_cons x y parts
    rw [habsorb]
    obtain ⟨ha, hb, hsum⟩ : a.isFinite = true ∧ b.isFinite = true ∧
        Double.units a + Double.units b = Double.units x + Double.units y := by
      obtain ⟨rfl, rfl⟩ | ⟨rfl, rfl⟩ := hab
      · exact ⟨hx, hy, rfl⟩
      · exact ⟨hy, hx, add_comm _ _⟩
    cases hhi : (a + b).isFinite with
    | false => exact .inl (isInf_absorb (isInf_add ha hb hhi) hfinite)
    | true =>
      obtain hinf | habsorbed := ih ⟨hfinite, hne, hpairwise⟩ hhi
      · exact .inl hinf
      obtain ⟨hlo, hunits⟩ := split_exact ha hb hle hhi
      have hrounded := rounded_add ha hb hhi
      rw [hsum] at hunits hrounded
      by_cases hzero : same (b - (a + b - a)) 0 = true
      · have hexact := (same_zero_iff_units hlo).1 hzero
        rw [if_pos hzero]
        exact .inr (habsorbed.exact hrounded (sub_eq_zero.1 (hunits.symm.trans hexact)))
      · have hne : Double.units x + Double.units y ≠ Double.units (a + b) := by
          rwa [ne_eq, ← sub_eq_zero, ← hunits, ← same_zero_iff_units hlo]
        rw [if_neg hzero]
        exact .inr (habsorbed.inexact hx hparts hrounded hlo hunits hne)

-- The parts stand for a total of finite numbers.
structure State.Stands (s : State Float) (total : ℤ) : Prop where
  apart : Apart s.parts
  total : units s.parts = total
  special : s.special = 0

theorem State.stands_empty : (State.empty : State Float).Stands 0 :=
  ⟨⟨by simp [State.empty], by simp [State.empty], .nil⟩, rfl, rfl⟩

theorem State.add_eq (s : State Float) (x : Float) :
    s.add x =
      if same (absorb x s.parts).2 0 = true then .ok { s with parts := (absorb x s.parts).1 }
      else if (absorb x s.parts).2.isFinite = true then
        .ok { s with parts := (absorb x s.parts).1 ++ [(absorb x s.parts).2] }
      else if x.isFinite = true then .error .overflow
      else .ok ⟨[], s.special + x, if same x x = true then s.infinite + x else s.infinite⟩ :=
  rfl

-- A finite number that can be added is added exactly.
theorem State.Stands.add {s next : State Float} {total : ℤ} (hs : s.Stands total)
    (hx : x.isFinite = true) (h : s.add x = .ok next) :
    next.Stands (total + Double.units x) := by
  rw [State.add_eq] at h
  obtain hinf | habsorbed := absorb_spec hs.apart hx
  · rw [if_neg (by rw [not_same_zero_of_isInf hinf]; exact Bool.false_ne_true),
      if_neg (by rw [isFinite_of_isInf hinf]; exact Bool.false_ne_true), if_pos hx] at h
    cases h
  · have htotal := habsorbed.total
    rw [hs.total, add_comm (Double.units x)] at htotal
    by_cases hzero : same (absorb x s.parts).2 0 = true
    · rw [if_pos hzero] at h
      cases h
      rw [(same_zero_iff_units habsorbed.finite).1 hzero, add_zero] at htotal
      exact ⟨habsorbed.apart, htotal, hs.special⟩
    · have hne : Double.units (absorb x s.parts).2 ≠ 0 := by
        rwa [ne_eq, ← same_zero_iff_units habsorbed.finite]
      rw [if_neg hzero, if_pos habsorbed.finite] at h
      cases h
      refine ⟨⟨?_, ?_, ?_⟩, ?_, hs.special⟩
      · exact List.forall_mem_append.2
          ⟨habsorbed.apart.finite, List.forall_mem_singleton.2 habsorbed.finite⟩
      · exact List.forall_mem_append.2
          ⟨habsorbed.apart.ne_zero, List.forall_mem_singleton.2 hne⟩
      · exact List.pairwise_append.2 ⟨habsorbed.apart.pairwise, List.pairwise_singleton _ _,
          fun k hk => List.forall_mem_singleton.2 (habsorbed.above k hk)⟩
      · rw [units, List.map_append, List.sum_append, List.map_singleton, List.sum_singleton]
        exact htotal

theorem State.Stands.foldlM {s last : State Float} {total : ℤ} (hs : s.Stands total)
    {xs : List Float} (hxs : ∀ x ∈ xs, x.isFinite = true) (h : xs.foldlM State.add s = .ok last) :
    last.Stands (total + units xs) := by
  induction xs generalizing s total with
  | nil =>
    cases h
    rwa [units, List.map_nil, List.sum_nil, add_zero]
  | cons x xs ih =>
    obtain ⟨hx, hxs⟩ := List.forall_mem_cons.1 hxs
    obtain ⟨next, hnext, h⟩ := except_bind_eq_ok.1 h
    rw [units_cons, ← add_assoc]
    exact ih (hs.add hx hnext) hxs h

end BarReplay.Amount.ExactSum
