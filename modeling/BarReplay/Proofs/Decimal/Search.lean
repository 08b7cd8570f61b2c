import BarReplay.Proofs.Decimal.Interval

namespace BarReplay.Decimal.Shortest

open Binary64

-- The decimal logarithm that is computed from the binary one is at most one too large. For the
-- exponents of doubles two pairs of powers are close enough, `10^59 < 2^196` and `2^93 < 10^28`.

theorem zpow_le_zpow_of_mul {j l a b : ℤ} (ha : 0 < a) (hpow : ((10 : ℚ) ^ a) ^ j ≤ (2 ^ b) ^ j)
    (hle : b * j ≤ a * l) : (10 : ℚ) ^ j ≤ 2 ^ l := by
  rw [← zpow_le_zpow_iff_left₀ (zpow_nonneg (by norm_num) j) (zpow_nonneg (by norm_num) l) ha]
  calc ((10 : ℚ) ^ j) ^ a = (10 ^ a) ^ j := zpow_comm _ _ _
    _ ≤ (2 ^ b) ^ j := hpow
    _ = 2 ^ (b * j) := (zpow_mul _ _ _).symm
    _ ≤ 2 ^ (a * l) := zpow_le_zpow_right₀ one_le_two hle
    _ = (2 ^ l) ^ a := by rw [mul_comm, zpow_mul]

theorem ten_zpow_le {k l : ℤ} (hlow : -1100 ≤ l) (hhigh : l ≤ 1100)
    (h : 100000 * k ≤ 30103 * l) : (10 : ℚ) ^ (k - 1) ≤ 2 ^ l := by
  obtain hj | hj := le_total 0 (k - 1)
  · refine zpow_le_zpow_of_mul (a := 59) (b := 196) (by norm_num) ?_ (by omega)
    exact zpow_le_zpow_left₀ hj (by norm_num) (by norm_num)
  · refine zpow_le_zpow_of_mul (a := 28) (b := 93) (by norm_num) ?_ (by omega)
    exact zpow_le_zpow_of_nonpos (by norm_num) (by norm_num) hj

namespace Interval

variable {i : Interval} {p : ℤ}

theorem le_gridFloor_iff {c : ℕ} :
    c ≤ i.gridFloor p ↔ (c : ℚ) * 10 ^ p ≤ i.centre * 2 ^ i.exponent := by
  have hpos : 0 < Nat.pow 10 p.toNat * Nat.pow 2 (-i.exponent).toNat :=
    Nat.mul_pos (Nat.pow_pos (by norm_num)) (Nat.pow_pos two_pos)
  rw [← decimalLe_iff, gridFloor, decimalLe, decide_eq_true_iff, Nat.mul_assoc c]
  exact Nat.le_div_iff_mul_le hpos

-- What is found on a grid lies in the interval.
theorem holds_of_onGrid? {c : ℕ} (h : i.onGrid? p = some c) : i.holds c p = true := by
  dsimp only [onGrid?] at h
  split at h
  · rename_i hlow hhigh
    split at h
    · cases h
      exact hlow
    · cases h
      exact hhigh
  · rename_i hlow _
    cases h
    exact hlow
  · rename_i hhigh
    cases h
    exact hhigh
  · cases h

theorem onGrid?_isSome
    (h : i.holds (i.gridFloor p) p = true ∨ i.holds (i.gridFloor p + 1) p = true) :
    (i.onGrid? p).isSome = true := by
  dsimp only [onGrid?]
  split
  · split <;> rfl
  · rfl
  · rfl
  · rename_i hlow hhigh
    rw [hlow, hhigh] at h
    simp at h

theorem contains_of_lt {v : ℚ} (hlow : (i.low : ℚ) * 2 ^ i.exponent < v)
    (hhigh : v < i.high * 2 ^ i.exponent) : i.Contains v := by
  unfold Contains
  split
  · exact ⟨hlow.le, hhigh.le⟩
  · exact ⟨hlow, hhigh⟩

-- A grid that is finer than the interval is wide has a neighbour of the centre in it.
theorem onGrid?_isSome_of_lt (hlow : i.low < i.centre) (hhigh : i.centre < i.high)
    (hwidth : (10 : ℚ) ^ p < (i.high - i.low) * 2 ^ i.exponent) : (i.onGrid? p).isSome = true := by
  have hpos := two_zpow_pos i.exponent
  have hfloor := le_gridFloor_iff.1 (le_refl (i.gridFloor p))
  have hnext := not_le.1 (mt le_gridFloor_iff.2 (Nat.not_succ_le_self (i.gridFloor p)))
  have hbelow : (i.low : ℚ) * 2 ^ i.exponent < i.centre * 2 ^ i.exponent := by gcongr
  have habove : (i.centre : ℚ) * 2 ^ i.exponent < i.high * 2 ^ i.exponent := by gcongr
  apply onGrid?_isSome
  by_cases h : (i.low : ℚ) * 2 ^ i.exponent < i.gridFloor p * 10 ^ p
  · exact .inl (holds_iff.2 (contains_of_lt h (hfloor.trans_lt habove)))
  · refine .inr (holds_iff.2 (contains_of_lt (hbelow.trans hnext) ?_))
    push_cast
    linarith

theorem places_spec (hcentre : i.centre ≠ 0) (hlow : -1100 ≤ (Nat.log2 i.centre : ℤ) + i.exponent)
    (hhigh : (Nat.log2 i.centre : ℤ) + i.exponent ≤ 1100) :
    (10 : ℚ) ^ (i.places - 1) ≤ i.centre * 2 ^ i.exponent := by
  have hone {k : ℤ} (h : decimalLe 1 k i.centre i.exponent = true) :
      (10 : ℚ) ^ k ≤ i.centre * 2 ^ i.exponent := by
    simpa using decimalLe_iff.1 h
  have hbinary : (2 : ℚ) ^ ((Nat.log2 i.centre : ℤ) + i.exponent) ≤ i.centre * 2 ^ i.exponent := by
    rw [zpow_add₀ two_ne_zero]
    gcongr
    exact zpow_log2_le hcentre
  dsimp only [places]
  rw [Int.fdiv_eq_ediv_of_nonneg _ (by norm_num)]
  split
  · exact (ten_zpow_le hlow hhigh (by omega)).trans hbinary
  · rename_i hk
    split
    · rename_i hnext
      rw [add_sub_assoc]
      exact hone hnext
    · rw [add_sub_cancel_right]
      exact hone (by simpa using hk)

-- The neighbours on a grid of seventeen digits are closer to each other than the ends of the
-- interval.
theorem onGrid?_seventeen {m : ℕ} {e : ℤ} (hlegal : Legal m e) (hm : 0 < m) :
    ((Interval.of m e).onGrid? ((Interval.of m e).places - 17)).isSome = true := by
  have hplaces : (10 : ℚ) ^ ((Interval.of m e).places - 1) ≤ (4 * m : ℕ) * 2 ^ (e - 2) := by
    have hlog : Nat.log2 (4 * m) < 55 := by
      rw [Nat.log2_lt (by omega)]
      have := hlegal.mantissa
      omega
    obtain ⟨-, hleast, hgreatest, -⟩ := hlegal
    refine places_spec (i := Interval.of m e) ?_ ?_ ?_ <;> dsimp only [Interval.of] <;> omega
  have hgrid : (10 : ℚ) ^ 16 * 10 ^ ((Interval.of m e).places - 17) ≤ 4 * m * 2 ^ (e - 2) := by
    rw [← zpow_natCast, ← zpow_add₀ (by norm_num)]
    push_cast at hplaces
    convert hplaces using 2
    push_cast
    ring
  obtain ⟨gap, hgap, hone, htwo, -, hpower⟩ := exists_of m e
  generalize (Interval.of m e).places - 17 = p at hgrid ⊢
  have hpos := two_zpow_pos (e - 2)
  have hwidth : (10 : ℚ) ^ p < (gap + 2) * 2 ^ (e - 2) := by
    obtain rfl | rfl : gap = 1 ∨ gap = 2 := by omega
    · have hm : (m : ℚ) = 2 ^ 52 := by exact_mod_cast hpower rfl
      rw [hm] at hgrid
      push_cast
      linarith
    · have hm : (m : ℚ) ≤ 2 ^ 53 := by exact_mod_cast hlegal.mantissa.le
      have hbound : 4 * (m : ℚ) * 2 ^ (e - 2) ≤ 4 * 2 ^ 53 * 2 ^ (e - 2) := by gcongr
      push_cast
      linarith
  rw [hgap]
  refine onGrid?_isSome_of_lt ?_ ?_ ?_ <;> dsimp only
  · omega
  · omega
  · rw [cast_low hm htwo]
    push_cast
    convert hwidth using 2
    ring

theorem exists_search {k : ℤ} {count tries n : ℕ} (hn : n < tries)
    (h : (i.onGrid? (k - (count + n : ℕ))).isSome = true) :
    ∃ c p, i.holds c p = true ∧
      i.search k count tries = ⟨trimZeros (Decimal.digits c), p + (Decimal.digits c).length⟩ := by
  induction tries generalizing count n with
  | zero => omega
  | succ tries ih =>
    rw [search]
    split
    · rename_i c hc
      exact ⟨c, _, holds_of_onGrid? hc, rfl⟩
    · rename_i hc
      cases n with
      | zero =>
        rw [Nat.add_zero, hc] at h
        cases h
      | succ n =>
        have hnext : count + (n + 1) = count + 1 + n := by omega
        rw [hnext] at h
        exact ih (by omega) h

end Interval

-- The digits that are written lie on a grid, in the interval of the number.
theorem exists_of_of {m : ℕ} {e : ℤ} (hlegal : Legal m e) (hm : 0 < m) :
    ∃ (c : ℕ) (p : ℤ), (Interval.of m e).Contains (c * 10 ^ p) ∧
      Shortest.of m e = ⟨trimZeros (Decimal.digits c), p + (Decimal.digits c).length⟩ := by
  have hseventeen : (Interval.of m e).onGrid? ((Interval.of m e).places - (1 + 16 : ℕ)) |>.isSome :=
    Interval.onGrid?_seventeen hlegal hm
  obtain ⟨c, p, hc, hs⟩ := Interval.exists_search (by omega : 16 < 17) hseventeen
  exact ⟨c, p, Interval.holds_iff.1 hc, hs⟩

end BarReplay.Decimal.Shortest
