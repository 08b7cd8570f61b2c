import BarReplay.Rule.Parser

namespace BarReplay.Text

theorem exists_range_of_isBlank {c : Char} (h : isBlank c = true) :
    ∃ b ∈ blankRanges, b.1 ≤ c.toNat ∧ c.toNat ≤ b.2 := by
  simpa [isBlank] using h

theorem exists_zero_of_decimalDigit? {c : Char} {d : Nat} (h : decimalDigit? c = some d) :
    ∃ z ∈ zeros, z ≤ c.toNat ∧ c.toNat < z + 10 := by
  obtain ⟨z, hz, -⟩ := Option.map_eq_some_iff.1 h
  exact ⟨z, List.mem_of_find?_eq_some hz, by simpa using List.find?_some hz⟩

theorem isWordChar_range {c : Char} (h : Rule.Parser.isWordChar c = true) :
    48 ≤ c.toNat ∧ c.toNat ≤ 122 := by
  change (((decide (65 ≤ c.toNat ∧ c.toNat ≤ 90) || (decide (97 ≤ c.toNat) && decide (c.toNat ≤ 122)))
    || (decide (48 ≤ c.toNat) && decide (c.toNat ≤ 57))) || decide (c = '_')) = true at h
  simp only [Bool.or_eq_true, Bool.and_eq_true, decide_eq_true_eq] at h
  obtain ((h | h) | h) | rfl := h
  · omega
  · omega
  · omega
  · decide

-- White space belongs to no token.

theorem decimalDigit?_of_isBlank {c : Char} (h : isBlank c = true) : decimalDigit? c = none := by
  have hapart : ∀ b ∈ blankRanges, ∀ z ∈ zeros, b.2 < z ∨ z + 10 ≤ b.1 := by decide
  obtain ⟨b, hb, hlow, hhigh⟩ := exists_range_of_isBlank h
  refine Option.eq_none_iff_forall_ne_some.2 fun d hd => ?_
  obtain ⟨z, hz, hzc, hcz⟩ := exists_zero_of_decimalDigit? hd
  have := hapart b hb z hz
  omega

theorem isWordChar_of_isBlank {c : Char} (h : isBlank c = true) :
    Rule.Parser.isWordChar c = false := by
  have hapart : ∀ b ∈ blankRanges, b.2 < 48 ∨ 122 < b.1 := by decide
  obtain ⟨b, hb, hlow, hhigh⟩ := exists_range_of_isBlank h
  refine Bool.eq_false_iff.2 fun hc => ?_
  have hrange := isWordChar_range hc
  have := hapart b hb
  omega

end BarReplay.Text
