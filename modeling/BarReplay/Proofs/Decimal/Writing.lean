import BarReplay.Amount.Double
import BarReplay.Proofs.Decimal.Digits
import BarReplay.Proofs.Decimal.Search

namespace BarReplay.Decimal

-- A numeral without a sign, and its value.
def Denotes (s : List Char) (v : ℚ) : Prop :=
  ∃ cs xs ds places e, s = cs ++ xs ∧ Literal.Significand cs ds places ∧ Literal.Exponent xs e ∧
    (value ds : ℚ) * 10 ^ (e - places : ℤ) = v

theorem denotes_pointed {cs fs : List Char} {ds es : List ℕ} {v : ℚ} (h : Digits cs ds)
    (hne : ds ≠ []) (hf : Digits fs es)
    (hv : (value (ds ++ es) : ℚ) * 10 ^ (-es.length : ℤ) = v) : Denotes (cs ++ '.' :: fs) v :=
  ⟨_, [], _, _, 0, (List.append_nil _).symm, .pointed h hne hf, .absent, by rwa [zero_sub]⟩

namespace Shortest

variable {s : Shortest} {ds : List ℕ}

theorem denotes_positional (h : Digits s.digits ds) (hne : ds ≠ []) :
    Denotes s.positional.toList (value ds * 10 ^ (s.point - ds.length)) := by
  have hzero : Digits ['0'] [0] := digits_zeros 1
  unfold positional
  dsimp only
  split
  · rename_i hpoint
    simp only [String.toList_append, String.toList_ofList]
    refine denotes_pointed hzero (by simp) ((digits_zeros (-s.point).toNat).append h) ?_
    have hfraction :
        -((List.replicate (-s.point).toNat 0 ++ ds).length : ℤ) = s.point - ds.length := by
      rw [List.length_append, List.length_replicate]
      omega
    rw [hfraction, value_append, value_append, value_zeros]
    simp [value]
  split
  · rename_i hpoint hlt
    rw [h.length_eq] at hlt
    simp only [String.toList_append, String.toList_ofList, List.append_assoc]
    refine denotes_pointed (h.take _) ?_ (h.drop _) ?_
    · simp [hne]
      omega
    · have hfraction : -((ds.drop s.point.toNat).length : ℤ) = s.point - ds.length := by
        rw [List.length_drop]
        omega
      rw [hfraction, List.take_append_drop]
  · rename_i hpoint hle
    rw [h.length_eq] at hle
    simp only [String.toList_append, String.toList_ofList]
    have hwhole := h.append (digits_zeros (s.point.toNat - s.digits.length))
    refine denotes_pointed hwhole (by simp [hne]) hzero ?_
    have hexponent : s.point - ds.length = ((s.point.toNat - s.digits.length : ℕ) : ℤ) := by
      rw [h.length_eq]
      omega
    rw [hexponent, value_append, value_append, value_zeros, List.length_replicate, zpow_natCast]
    push_cast
    simp [value]

theorem exponent_of_int (e : ℤ) :
    Literal.Exponent ('e' :: ((if e < 0 then "-" else "+") ++ padded 2 e.natAbs).toList) e := by
  obtain ⟨es, hes, hne, hvalue⟩ := exists_padded 2 e.natAbs
  rw [String.toList_append]
  split
  · have hneg : -(value es : ℤ) = e := by omega
    rw [← hneg]
    exact .negative (.inl rfl) (by rw [hneg]; exact hes) hne
  · have hpos : (value es : ℤ) = e := by omega
    rw [← hpos]
    exact .positive (.inl rfl) (.inr rfl) (by rw [hpos]; exact hes) hne

theorem significand_scientific {cs : List Char} (h : Digits cs ds) (hne : ds ≠ []) :
    Literal.Significand
      (cs.take 1 ++ (if (cs.drop 1).isEmpty then "" else "." ++ String.ofList (cs.drop 1)).toList) ds
      (ds.length - 1) := by
  obtain ⟨d, es, rfl⟩ := List.exists_cons_of_ne_nil hne
  have htail := h.drop 1
  split
  · rename_i hempty
    have hcs := List.isEmpty_iff.1 hempty
    rw [hcs] at htail
    cases htail.nil_left
    have hwhole : cs.take 1 ++ "".toList = cs := by
      conv_rhs => rw [← List.take_append_drop 1 cs, hcs]
      rfl
    rw [hwhole]
    exact .whole h hne
  · simp only [String.toList_append, String.toList_ofList]
    exact .pointed (h.take 1) (by simp) htail

theorem denotes_scientific (h : Digits s.digits ds) (hne : ds ≠ []) :
    Denotes s.scientific.toList (value ds * 10 ^ (s.point - ds.length)) := by
  refine ⟨_, _, ds, ds.length - 1, s.point - 1, ?_, significand_scientific h hne,
    exponent_of_int (s.point - 1), ?_⟩
  · simp [scientific]
  · have hpos := List.length_pos_iff.2 hne
    congr 2
    omega

-- The digits that are found for a number, with their point, lie in its interval.
theorem exists_digits_of {m : ℕ} {e : ℤ} (hlegal : Binary64.Legal m e) (hm : 0 < m) :
    ∃ ds, Digits (Shortest.of m e).digits ds ∧ ds ≠ [] ∧
      (Interval.of m e).Contains (value ds * 10 ^ ((Shortest.of m e).point - ds.length)) := by
  obtain ⟨c, p, hcontains, hshortest⟩ := exists_of_of hlegal hm
  obtain ⟨ds, k, hds, hvalue, hlength⟩ := exists_trimmed c
  have hexponent : p + (Decimal.digits c).length - ds.length = k + p := by
    rw [hlength]
    push_cast
    ring
  have hsame : (value ds : ℚ) * 10 ^ (k + p : ℤ) = c * 10 ^ p := by
    rw [zpow_add₀ (by norm_num), zpow_natCast, ← mul_assoc, ← hvalue]
    push_cast
    rfl
  rw [hshortest]
  refine ⟨ds, hds, ?_, ?_⟩
  · rintro rfl
    have hlow := (Interval.bounds_of_contains hlegal hm hcontains).1
    rw [← hsame] at hlow
    exact absurd hlow (by simp [value])
  · rw [hexponent, hsame]
    exact hcontains

end Shortest

theorem Denotes.written {s : String} {v : ℚ} (h : Denotes s.toList v) (negative : Bool) :
    ∃ n p, Literal.Written ((if negative then "-" else "") ++ s).toList ⟨negative, n, p⟩ ∧
      (n : ℚ) * 10 ^ p = v := by
  obtain ⟨cs, xs, ds, places, e, hs, hform, hexponent, hv⟩ := h
  refine ⟨value ds, e - places, ?_, hv⟩
  rw [String.toList_append, hs]
  cases negative with
  | true =>
    change Literal.Written ('-' :: (cs ++ xs)) _
    exact .negative hform hexponent
  | false =>
    change Literal.Written (cs ++ xs) _
    exact .positive hform hexponent

namespace Binary64

theorem ofDecimal_zero (negative : Bool) (p e : ℤ) :
    ofDecimal negative 0 p = Float.ofBits (UInt64.ofNat (signed negative (pattern 0 e))) := by
  rfl

end Binary64

-- A finite number that is written down reads back as the same double.
theorem exists_written_shortest {x : Float} (h : x.isFinite = true) :
    ∃ l, Literal.Written (shortest x).toList l ∧ (Numeral.ofLiteral l : Float) = x := by
  obtain ⟨b, hb, hlegal, hx⟩ := Binary64.exists_of_isFinite h
  unfold shortest
  rw [hb]
  dsimp only
  split
  · rename_i hzero
    have hdigit : Digits ['0'] [0] := digits_zeros 1
    have hdenotes : Denotes "0.0".toList 0 :=
      denotes_pointed hdigit (by simp) hdigit (by simp [value])
    obtain ⟨n, p, hwritten, hv⟩ := hdenotes.written b.negative
    have hten : (10 : ℚ) ^ p ≠ 0 := zpow_ne_zero p (by norm_num)
    have hn : n = 0 := by exact_mod_cast (mul_eq_zero.1 hv).resolve_right hten
    refine ⟨_, hwritten, ?_⟩
    rw [← hx, hzero, hn]
    exact Binary64.ofDecimal_zero b.negative p b.exponent
  · rename_i hne
    have hpos := Nat.pos_of_ne_zero hne
    obtain ⟨ds, hds, hdigits, hcontains⟩ := Shortest.exists_digits_of hlegal hpos
    generalize Shortest.of b.mantissa b.exponent = s at hds hcontains ⊢
    have hdenotes : Denotes
        (if -4 < s.point ∧ s.point ≤ 16 then s.positional else s.scientific).toList
        (value ds * 10 ^ (s.point - ds.length)) := by
      split
      · exact Shortest.denotes_positional hds hdigits
      · exact Shortest.denotes_scientific hds hdigits
    obtain ⟨n, q, hwritten, hv⟩ := hdenotes.written b.negative
    refine ⟨_, hwritten, ?_⟩
    rw [← hx]
    exact Shortest.Interval.ofDecimal_eq b.negative hlegal hpos (hv ▸ hcontains)

end BarReplay.Decimal
