import BarReplay.Proofs.Decimal.Units

namespace BarReplay.Double

open Decimal Decimal.Binary64 Float.Model Float.Model.UnpackedFloat

-- A double as a multiple of the least positive one.
def units (x : Float) : ℤ :=
  Binary64.units x.toModel.unpack

variable {x y : Float}

theorem canonical (hx : x.isFinite = true) : Canonical x.toModel.unpack :=
  (canonical_of_isFinite hx).1

theorem abs_units_lt (hx : x.isFinite = true) : |units x| < ceiling :=
  (canonical_of_isFinite hx).2

theorem fits_units (hx : x.isFinite = true) : Fits (units x) :=
  (canonical hx).fits

theorem units_neg (x : Float) : units (-x) = -units x := by
  unfold units
  rw [unpack_neg]
  cases x.toModel.unpack with
  | finite s m e hm => exact apply_neg s _
  | _ => rfl

theorem isFinite_neg (x : Float) : (-x).isFinite = x.isFinite := by
  change (-x).toModel.unpack.isFinite = x.toModel.unpack.isFinite
  rw [unpack_neg]
  cases x.toModel.unpack <;> rfl

theorem sub_eq_add_neg (x y : Float) : x - y = x + -y := by
  change Float.ofModel (Float.Model.pack (UnpackedFloat.sub Format.binary64 x.toModel.unpack
    y.toModel.unpack)) = Float.ofModel (Float.Model.pack (UnpackedFloat.add Format.binary64
      x.toModel.unpack (-y).toModel.unpack))
  rw [unpack_neg, sub_eq_add]

-- Sums

-- The sum of two finite numbers is the rounded one, or infinite where this is too large.
theorem exists_add (hx : x.isFinite = true) (hy : y.isFinite = true) :
    ∃ r, Rounded (units x + units y) r ∧
      if |r| < ceiling then (x + y).isFinite = true ∧ units (x + y) = r
      else (x + y).isInf = true := by
  obtain ⟨hcanonical, hrounded⟩ := add_spec (canonical hx) (canonical hy)
  refine ⟨_, hrounded, ?_⟩
  have hpack := hcanonical.unpack_pack
  split
  · rename_i hlt
    rw [if_pos hlt] at hpack
    have hunpack : (x + y).toModel.unpack = UnpackedFloat.add Format.binary64 x.toModel.unpack
        y.toModel.unpack := hpack
    refine ⟨?_, congrArg Binary64.units hunpack⟩
    change (x + y).toModel.unpack.isFinite = true
    rw [hunpack]
    exact hcanonical.isFinite
  · rename_i hge
    rwa [if_neg hge] at hpack

theorem isFinite_of_isInf (h : x.isInf = true) : x.isFinite = false := by
  rw [← Bool.not_eq_true, isFinite_iff, h]
  exact fun h => absurd h.2 nofun

theorem rounded_add (hx : x.isFinite = true) (hy : y.isFinite = true)
    (h : (x + y).isFinite = true) : Rounded (units x + units y) (units (x + y)) := by
  obtain ⟨r, hrounded, hr⟩ := exists_add hx hy
  split at hr
  · rwa [hr.2]
  · rw [isFinite_of_isInf hr] at h
    cases h

theorem isInf_add (hx : x.isFinite = true) (hy : y.isFinite = true)
    (h : (x + y).isFinite = false) : (x + y).isInf = true := by
  obtain ⟨r, hrounded, hr⟩ := exists_add hx hy
  split at hr
  · rw [hr.1] at h
    cases h
  · exact hr

-- It is exact where it has 53 bits.
theorem add_of_fits (hx : x.isFinite = true) (hy : y.isFinite = true)
    (hfits : Fits (units x + units y)) (hlt : |units x + units y| < ceiling) :
    (x + y).isFinite = true ∧ units (x + y) = units x + units y := by
  obtain ⟨r, hrounded, hr⟩ := exists_add hx hy
  rw [hrounded.eq_of_fits hfits, if_pos hlt] at hr
  exact hr

theorem isFinite_add (hx : x.isFinite = true) (hy : y.isFinite = true)
    (h : |units x + units y| < ceiling - halfStep) : (x + y).isFinite = true := by
  obtain ⟨r, hrounded, hr⟩ := exists_add hx hy
  rw [if_pos (abs_lt_ceiling_of_rounded hrounded h)] at hr
  exact hr.1

-- Differences

theorem units_add_neg (x y : Float) : units x + units (-y) = units x - units y := by
  rw [units_neg, Int.sub_eq_add_neg]

theorem rounded_sub (hx : x.isFinite = true) (hy : y.isFinite = true)
    (h : (x - y).isFinite = true) : Rounded (units x - units y) (units (x - y)) := by
  rw [sub_eq_add_neg] at h ⊢
  rw [← units_add_neg]
  exact rounded_add hx ((isFinite_neg y).trans hy) h

theorem sub_of_fits (hx : x.isFinite = true) (hy : y.isFinite = true)
    (hfits : Fits (units x - units y)) (hlt : |units x - units y| < ceiling) :
    (x - y).isFinite = true ∧ units (x - y) = units x - units y := by
  rw [← units_add_neg] at hfits hlt ⊢
  rw [sub_eq_add_neg]
  exact add_of_fits hx ((isFinite_neg y).trans hy) hfits hlt

theorem isFinite_sub (hx : x.isFinite = true) (hy : y.isFinite = true)
    (h : |units x - units y| < ceiling - halfStep) : (x - y).isFinite = true := by
  rw [← units_add_neg] at h
  rw [sub_eq_add_neg]
  exact isFinite_add hx ((isFinite_neg y).trans hy) h

-- A number keeps its value when nothing is added or taken away.
theorem add_of_units_zero (hx : x.isFinite = true) (hy : y.isFinite = true) (h : units y = 0) :
    (x + y).isFinite = true ∧ units (x + y) = units x := by
  have hadd := add_of_fits hx hy
  rw [h, add_zero] at hadd
  exact hadd (fits_units hx) (abs_units_lt hx)

theorem sub_of_units_zero (hx : x.isFinite = true) (hy : y.isFinite = true) (h : units y = 0) :
    (x - y).isFinite = true ∧ units (x - y) = units x := by
  rw [sub_eq_add_neg]
  exact add_of_units_zero hx ((isFinite_neg y).trans hy) (by rw [units_neg, h, neg_zero])

-- Infinite numbers

theorem exists_infinity (hx : x.isInf = true) : ∃ s, x.toModel.unpack = .infinity s := by
  change x.toModel.unpack.isInf = true at hx
  cases hunpack : x.toModel.unpack with
  | infinity s => exact ⟨s, rfl⟩
  | _ =>
    rw [hunpack] at hx
    cases hx

-- An infinite number stays infinite when a finite one is added,
theorem isInf_add_of_isInf (hx : x.isInf = true) (hy : y.isFinite = true) :
    (x + y).isInf = true := by
  obtain ⟨s, hs⟩ := exists_infinity hx
  have hcanonical := canonical hy
  have hadd : UnpackedFloat.add Format.binary64 x.toModel.unpack y.toModel.unpack =
      .infinity s := by
    rw [hs]
    generalize y.toModel.unpack = v at hcanonical
    cases hcanonical <;> rfl
  change (Float.Model.pack (UnpackedFloat.add Format.binary64 x.toModel.unpack
    y.toModel.unpack)).unpack.isInf = true
  rw [hadd]
  cases s <;> rfl

theorem unpack_abs (x : Float) : x.abs.toModel.unpack = x.toModel.unpack.abs := by
  change (Float.Model.pack x.toModel.unpack.abs).unpack = x.toModel.unpack.abs
  cases hunpack : x.toModel.unpack with
  | notANumber => rfl
  | infinity s => cases s <;> rfl
  | zero s => cases s <;> rfl
  | finite s m e hm => exact unpack_pack_legal .positive hm (legal_of_unpack hunpack)

theorem isNaN_abs (x : Float) : x.abs.isNaN = x.isNaN := by
  change x.abs.toModel.unpack.isNaN = x.toModel.unpack.isNaN
  rw [unpack_abs]
  cases x.toModel.unpack <;> rfl

-- What is no number leaves no number behind.
theorem isNaN_sub (h : x.isNaN = true ∨ y.isNaN = true) : (x - y).isNaN = true := by
  have hnone : UnpackedFloat.sub Format.binary64 x.toModel.unpack y.toModel.unpack =
      .notANumber := by
    change x.toModel.unpack.isNaN = true ∨ y.toModel.unpack.isNaN = true at h
    generalize x.toModel.unpack = u, y.toModel.unpack = v at h
    obtain hu | hv := h
    · rw [eq_notANumber hu]
      cases v <;> rfl
    · rw [eq_notANumber hv]
      cases u <;> rfl
  change (Float.Model.pack (UnpackedFloat.sub Format.binary64 x.toModel.unpack
    y.toModel.unpack)).unpack.isNaN = true
  rw [hnone]
  rfl

-- and no finite number is above its absolute value.
theorem not_abs_lt_of_isInf (hx : x.isInf = true) (y : Float) : ¬ x.abs < y.abs := by
  obtain ⟨s, hs⟩ := exists_infinity hx
  rw [lt_iff, unpack_abs, unpack_abs, hs]
  intro hless
  cases hy : y.toModel.unpack with
  | _ =>
    rw [hy] at hless
    cases hless

-- Order

-- Of two numbers with the larger exponent, or with the same and the larger mantissa, the first is
-- the larger one.
theorem scaled_lt {m n : ℕ} {e f : ℤ} (hm : Placed m e) (hn : Placed n f)
    (h : e < f ∨ e = f ∧ m < n) : (m : ℤ) * 2 ^ (e + 1074).toNat < n * 2 ^ (f + 1074).toNat := by
  have hleast := hm.least
  obtain hlt | ⟨rfl, hlt⟩ := h
  · have hnormal : (2 : ℤ) ^ 52 ≤ n := by exact_mod_cast hn.normal (by omega)
    have hmantissa : (m : ℤ) < 2 ^ 53 := by exact_mod_cast hm.mantissa
    calc (m : ℤ) * 2 ^ (e + 1074).toNat < 2 ^ 53 * 2 ^ (e + 1074).toNat :=
          mul_lt_mul_of_pos_right hmantissa (by positivity)
      _ = 2 ^ 52 * 2 ^ ((e + 1074).toNat + 1) := by rw [pow_succ (2 : ℤ) (e + 1074).toNat]; ring
      _ ≤ n * 2 ^ (f + 1074).toNat :=
        mul_le_mul hnormal (pow_le_pow_right₀ one_le_two (by omega)) (by positivity)
          (by positivity)
  · exact mul_lt_mul_of_pos_right (by exact_mod_cast hlt) (by positivity)

-- The units of a number are on the side of its sign,
theorem units_of_finite {s : Sign} {m : ℕ} {e : ℤ} (hm : 0 < m) :
    (s.apply 1 = 1 → 0 < Binary64.units (.finite s m e hm)) ∧
      (s.apply 1 = -1 → Binary64.units (.finite s m e hm) < 0) := by
  have hpos := scaled_pos hm (e + 1074).toNat
  cases s with
  | positive => exact ⟨fun _ => hpos, fun h => absurd h (by decide)⟩
  | negative => exact ⟨fun h => absurd h (by decide), fun _ => neg_neg_of_pos hpos⟩

theorem sign_cases (s : Sign) : s.apply 1 = 1 ∨ s.apply 1 = -1 := by
  cases s with
  | positive => exact .inl rfl
  | negative => exact .inr rfl

-- so they are in the order of the ranks.
theorem units_lt_of_rank_lt {u v : UnpackedFloat} (hu : Canonical u) (hv : Canonical v)
    (h : rank u < rank v) : Binary64.units u < Binary64.units v := by
  cases hu with
  | zero s =>
    cases hv with
    | zero t => exact absurd h (lt_irrefl _)
    | @finite t n f hn h' =>
      have hsign : 0 ≤ t.apply 1 :=
        (Prod.Lex.toLex_lt_toLex.1 h).elim (fun h => h.le) fun h => h.1.le
      exact (units_of_finite hn).1 ((sign_cases t).resolve_right (by omega))
  | @finite s m e hm h' =>
    cases hv with
    | zero t =>
      have hsign : s.apply 1 ≤ 0 :=
        (Prod.Lex.toLex_lt_toLex.1 h).elim (fun h => h.le) fun h => h.1.le
      exact (units_of_finite hm).2 ((sign_cases s).resolve_left (by omega))
    | @finite t n f hn h'' =>
      have h : s.apply 1 < t.apply 1 ∨ s.apply 1 = t.apply 1 ∧
          toLex (s.apply e, s.apply (m : ℤ)) < toLex (t.apply f, t.apply (n : ℤ)) :=
        Prod.Lex.toLex_lt_toLex.1 h
      rw [Prod.Lex.toLex_lt_toLex] at h
      cases s with
      | positive =>
        cases t with
        | positive =>
          obtain h | ⟨-, h⟩ := h
          · exact absurd h (lt_irrefl _)
          · exact scaled_lt h' h'' (h.imp_right fun h => ⟨h.1, Int.ofNat_lt.1 h.2⟩)
        | negative =>
          have hsign : (1 : ℤ) ≤ -1 := h.elim (fun h => h.le) fun h => h.1.le
          exact absurd hsign (by decide)
      | negative =>
        cases t with
        | positive => exact ((units_of_finite hm).2 rfl).trans ((units_of_finite hn).1 rfl)
        | negative =>
          obtain h | ⟨-, h⟩ := h
          · exact absurd h (lt_irrefl _)
          · refine neg_lt_neg (scaled_lt h'' h' ?_)
            exact h.imp Int.neg_lt_neg_iff.1 fun h =>
              ⟨(neg_inj.1 h.1).symm, Int.ofNat_lt.1 (Int.neg_lt_neg_iff.1 h.2)⟩

theorem units_eq_of_rank_eq {u v : UnpackedFloat} (hu : Canonical u) (hv : Canonical v)
    (h : rank u = rank v) : Binary64.units u = Binary64.units v := by
  cases hu with
  | zero s =>
    cases hv with
    | zero t => rfl
    | @finite t n f hn h' =>
      have hsign : 0 = t.apply 1 := congrArg (fun place => (ofLex place).1) h
      cases t <;> cases hsign
  | @finite s m e hm h' =>
    cases hv with
    | zero t =>
      have hsign : s.apply 1 = 0 := congrArg (fun place => (ofLex place).1) h
      cases s <;> cases hsign
    | @finite t n f hn h'' =>
      have hsign : s.apply 1 = t.apply 1 := congrArg (fun place => (ofLex place).1) h
      have hexponent : s.apply e = t.apply f :=
        congrArg (fun place => (ofLex (ofLex place).2).1) h
      have hmantissa : s.apply (m : ℤ) = t.apply (n : ℤ) :=
        congrArg (fun place => (ofLex (ofLex place).2).2) h
      rw [units_finite, units_finite]
      cases s with
      | positive =>
        cases t with
        | positive => rw [show e = f from hexponent, show (m : ℤ) = n from hmantissa]
        | negative => cases hsign
      | negative =>
        cases t with
        | positive => cases hsign
        | negative => rw [neg_inj.1 hexponent, neg_inj.1 hmantissa]

theorem isNaN_of_isFinite (hx : x.isFinite = true) : x.isNaN = false :=
  ((isFinite_iff x).1 hx).1

theorem le_iff_units (hx : x.isFinite = true) (hy : y.isFinite = true) :
    x ≤ y ↔ units x ≤ units y := by
  rw [le_iff_rank (isNaN_of_isFinite hx) (isNaN_of_isFinite hy)]
  constructor
  · intro h
    obtain hlt | heq := h.lt_or_eq
    · exact (units_lt_of_rank_lt (canonical hx) (canonical hy) hlt).le
    · exact (units_eq_of_rank_eq (canonical hx) (canonical hy) heq).le
  · intro h
    by_contra hlt
    exact (units_lt_of_rank_lt (canonical hy) (canonical hx) (not_le.1 hlt)).not_ge h

theorem lt_iff_units (hx : x.isFinite = true) (hy : y.isFinite = true) :
    x < y ↔ units x < units y := by
  rw [← not_le, ← le_iff_units hy hx, not_le_iff, isNaN_of_isFinite hx, isNaN_of_isFinite hy]
  simp only [Bool.false_eq_true, or_false]

theorem same_iff_units (hx : x.isFinite = true) (hy : y.isFinite = true) :
    Amount.same x y = true ↔ units x = units y := by
  rw [Amount.same, Bool.and_eq_true, decide_eq_true_iff, decide_eq_true_iff, le_iff_units hx hy,
    le_iff_units hy hx, le_antisymm_iff]

theorem same_zero_iff_units (hx : x.isFinite = true) : Amount.same x 0 = true ↔ units x = 0 :=
  same_iff_units hx rfl

-- A finite number is not the same as one that is not.
theorem isFinite_eq_of_same (h : Amount.same x y = true) : x.isFinite = y.isFinite := by
  have htwins : Twins x.toModel.unpack y.toModel.unpack := alike_of_same h
  change x.toModel.unpack.isFinite = y.toModel.unpack.isFinite
  generalize x.toModel.unpack = u, y.toModel.unpack = v at htwins
  cases htwins <;> rfl

theorem not_same_zero_of_isInf (hx : x.isInf = true) : Amount.same x 0 = false := by
  rw [← Bool.not_eq_true]
  intro hsame
  have hfinite := isFinite_eq_of_same hsame
  rw [isFinite_of_isInf hx] at hfinite
  cases hfinite

theorem isFinite_abs (x : Float) : x.abs.isFinite = x.isFinite := by
  change x.abs.toModel.unpack.isFinite = x.toModel.unpack.isFinite
  rw [unpack_abs]
  cases x.toModel.unpack <;> rfl

theorem units_abs (x : Float) : units x.abs = |units x| := by
  unfold units
  rw [unpack_abs]
  cases x.toModel.unpack with
  | finite s m e hm =>
    rw [units_finite, abs_apply, abs_of_nonneg (by positivity)]
    rfl
  | _ => exact abs_zero.symm

theorem abs_lt_iff_units (hx : x.isFinite = true) (hy : y.isFinite = true) :
    x.abs < y.abs ↔ |units x| < |units y| := by
  rw [lt_iff_units ((isFinite_abs x).trans hx) ((isFinite_abs y).trans hy), units_abs, units_abs]

-- Twice a number

theorem unpack_two :
    (Amount.whole 2 : Float).toModel.unpack = .finite .positive (2 ^ 52) (-51) (by decide) :=
  rfl

theorem divideEven_mul (q : ℕ) {d : ℕ} (hd : 0 < d) : divideEven (q * d) d = q := by
  unfold divideEven
  dsimp only
  rw [Nat.mul_mod_left, Nat.mul_div_cancel q hd, if_pos (by omega)]

theorem mul_two_spec {u : UnpackedFloat} (hu : Canonical u) :
    Canonical (UnpackedFloat.mul Format.binary64 u (.finite .positive (2 ^ 52) (-51) (by decide))) ∧
      Binary64.units (UnpackedFloat.mul Format.binary64 u
        (.finite .positive (2 ^ 52) (-51) (by decide))) = 2 * Binary64.units u := by
  cases hu with
  | zero s => exact ⟨.zero _, rfl⟩
  | @finite s m e hm h =>
    have hleast := h.least
    have hlog : m.log2 < 53 := (Nat.log2_lt hm.ne').2 h.mantissa
    obtain ⟨t, ht⟩ : ∃ t, t = target (m * 2 ^ 52) (e + -51) := ⟨_, rfl⟩
    have htarget : t = max ((m.log2 : ℤ) + e - 51) (-1074) := by
      rw [ht, target, log2_mul_two_pow hm.ne']
      congr 1
      push_cast
      ring
    obtain ⟨hcanonical, hunits⟩ := roundWithAccuracy_spec (s * .positive) (m * 2 ^ 52)
      Nat.one_pos (by rw [Nat.div_one, ht]) (by omega : e + -51 ≤ t)
    have hmul : roundWithAccuracy Format.binary64 (s * .positive) (m * 2 ^ 52 / 1) (e + -51)
        (accuracyOfFraction (m * 2 ^ 52 % 1) 1) =
        UnpackedFloat.mul Format.binary64 (.finite s m e hm)
          (.finite .positive (2 ^ 52) (-51) (by decide)) := by
      rw [Nat.div_one, Nat.mod_one]
      rfl
    rw [hmul] at hcanonical hunits
    refine ⟨hcanonical, hunits.trans ?_⟩
    -- no bit is lost, since the factor brings as many as the rounding takes away
    obtain ⟨k, hk⟩ : ∃ k, k = (t - (e + -51)).toNat := ⟨_, rfl⟩
    have hsplit : m * 2 ^ 52 = m * 2 ^ (52 - k) * 2 ^ k := by
      rw [mul_assoc, ← pow_add]
      congr 2
      omega
    have hpower : (52 - k) + (t + 1074).toNat = (e + 1074).toNat + 1 := by omega
    have hsign : s * .positive = s := by cases s <;> rfl
    rw [← hk, one_mul, hsplit, divideEven_mul _ (Nat.two_pow_pos k), hsign, units_finite]
    push_cast
    rw [mul_assoc, ← pow_add, hpower, pow_succ]
    cases s <;> simp only [Sign.apply] <;> ring

theorem mul_two (hx : x.isFinite = true) (h : |2 * units x| < ceiling) :
    (x * Amount.whole 2).isFinite = true ∧ units (x * Amount.whole 2) = 2 * units x := by
  obtain ⟨hcanonical, hunits⟩ := mul_two_spec (canonical hx)
  have hpack := hcanonical.unpack_pack
  change |2 * Binary64.units x.toModel.unpack| < ceiling at h
  rw [hunits, if_pos h, ← unpack_two] at hpack
  have hunpack : (x * Amount.whole 2).toModel.unpack = UnpackedFloat.mul Format.binary64
      x.toModel.unpack (Amount.whole 2 : Float).toModel.unpack := hpack
  constructor
  · change (x * Amount.whole 2).toModel.unpack.isFinite = true
    rw [hunpack, unpack_two]
    exact hcanonical.isFinite
  · change Binary64.units (x * Amount.whole 2).toModel.unpack = _
    rw [hunpack, unpack_two]
    exact hunits

end BarReplay.Double
