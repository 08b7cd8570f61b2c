import BarReplay.Proofs.Rule.Reading

namespace BarReplay.Rule.Parser

open Decimal Grammar Text

variable {s : List Char}

theorem isBlank_of_decimalDigit? {c : Char} {d : Nat} (h : decimalDigit? c = some d) :
    isBlank c = false := by
  cases hc : isBlank c with
  | false => rfl
  | true => cases h.symm.trans (decimalDigit?_of_isBlank hc)

theorem integerForm_one : IntegerForm [.integer ['1']] 1 := by
  have hone : Digits ['1'] [1] := rfl
  exact .digits hone (by decide)

def Language.integer : Language Nat where
  form := IntegerForm
  inhabited := ⟨_, _, integerForm_one⟩

theorem integer_of_span {ds : List Nat} {r : List Char}
    (h : spanDigits (skipBlank s) = (ds, r)) (hpos : 1 ≤ value ds) :
    (∃ q, integer s = .ok (value ds, q) ∧ q.1 = r) ∨
      digitLimit < ds.length ∧ TooLong (integer s) := by
  unfold integer
  split
  · rename_i hspan
    cases h.symm.trans hspan
    exact absurd hpos (by decide)
  · rename_i d ds' r' hspan
    cases h.symm.trans hspan
    by_cases hlimit : digitLimit < (d :: ds').length
    · rw [if_pos hlimit]
      exact .inr ⟨hlimit, _, _, rfl, rfl⟩
    · rw [if_neg hlimit, if_neg (Nat.not_lt.2 hpos)]
      exact .inl ⟨_, rfl, rfl⟩

theorem span_of_integer {n : Nat} {r : Rest s} (h : integer s = .ok (n, r)) :
    ∃ ds, spanDigits (skipBlank s) = (ds, r.1) ∧ n = value ds ∧ 1 ≤ value ds ∧
      ds.length ≤ digitLimit := by
  unfold integer at h
  split at h
  · cases h
  · rename_i hspan
    split at h
    · cases h
    · rename_i hlimit
      split at h
      · cases h
      · rename_i hpos
        cases h
        exact ⟨_, hspan, rfl, Nat.not_lt.1 hpos, Nat.not_lt.1 hlimit⟩

theorem span_of_tooLong (h : TooLong (integer s)) : digitLimit < (spanDigits (skipBlank s)).1.length := by
  obtain ⟨f, n, hf, hn⟩ := h
  unfold integer at hf
  split at hf
  · cases hf
    cases hn
  · rename_i hspan
    split at hf
    · rename_i hlimit
      rw [hspan]
      exact hlimit
    · split at hf
      · cases hf
        cases hn
      · cases hf

theorem integer_reads (s : List Char) : Reads (integer s) .integer s where
  sound n r hn := by
    obtain ⟨blanks, hs, hblank⟩ := exists_blanks s
    obtain ⟨cs, hcs, hdigits, -⟩ := exists_of_spanDigits (skipBlank s)
    obtain ⟨ds, hspan, rfl, hpos, hlimit⟩ := span_of_integer hn
    rw [hspan] at hcs hdigits
    refine ⟨[.integer cs], blanks ++ (cs ++ []), .digits hdigits hpos, ?_, .cons hblank .nil, ?_⟩
    · intro cs' hcs'
      cases List.mem_singleton.1 hcs'
      rw [hdigits.length_eq]
      exact hlimit
    · rw [List.append_nil, List.append_assoc, ← hcs, ← hs]
  complete ts n u r hform hspaced hs hr := by
    cases hform with
    | @digits cs ds hdigits hpos =>
      have hne : ds ≠ [] := by
        rintro rfl
        exact absurd hpos (by decide)
      obtain ⟨c, d, rest, hcs, hc⟩ := hdigits.exists_cons hne
      have hsolid : Solid (.integer cs) := ⟨c, rest, hcs, isBlank_of_decimalDigit? hc⟩
      obtain ⟨v, hv, hskip⟩ := skipBlank_of_spaced hsolid hspaced hs
      cases hv
      have hspan : spanDigits (skipBlank s) = (ds, r) := by
        rw [hskip]
        exact spanDigits_append hdigits hr.noDigit
      obtain hread | ⟨hlimit, hlong⟩ := integer_of_span hspan hpos
      · exact .inl hread
      · rw [← hdigits.length_eq] at hlimit
        exact .inr ⟨fun h => absurd (h _ List.mem_cons_self) (Nat.not_le.2 hlimit), hlong⟩
  long hlong := by
    obtain ⟨blanks, hs, hblank⟩ := exists_blanks s
    obtain ⟨cs, hcs, hdigits, hrest⟩ := exists_of_spanDigits (skipBlank s)
    have hlimit := span_of_tooLong hlong
    refine ⟨cs, ⟨blanks, _, _, ?_, ?_, hdigits, hrest⟩, ?_⟩
    · exact ⟨[], ['1'], [], 1, [], blanks, integerForm_one, .nil, hblank, rfl⟩
    · rw [← hcs, ← hs]
    · rw [hdigits.length_eq]
      exact hlimit

theorem isFinite_zero : Amount.isFinite (Numeral.ofLiteral ⟨false, 0, 0⟩ : Float) = true := by
  decide

def Language.number : Language Float where
  form := NumberForm
  inhabited := by
    have hzero : Digits ['0'] [0] := rfl
    exact ⟨_, _, .written (.positive (.whole hzero (by decide)) .absent) isFinite_zero⟩

theorem Written.not_isBlank {c : Char} (h : c = '-' ∨ c = '.' ∨ ∃ d, decimalDigit? c = some d) :
    isBlank c = false := by
  obtain rfl | rfl | ⟨d, hd⟩ := h
  · decide
  · decide
  · exact isBlank_of_decimalDigit? hd

theorem number_eq_ok_iff {x : Float} {q : Rest s} : number s = .ok (x, q) ↔
    ∃ l, Literal.scan? (skipBlank s) = some (l, q.1) ∧ x = Numeral.ofLiteral l ∧
      Amount.isFinite x = true := by
  unfold number
  split
  · rename_i hnone
    exact ⟨fun h => (nomatch h), fun ⟨l, hl, _⟩ => (nomatch hnone.symm.trans hl)⟩
  · rename_i l r hscan
    dsimp only
    by_cases hfinite : Amount.isFinite (Numeral.ofLiteral l : Float) = true
    · rw [if_pos hfinite]
      constructor
      · intro h
        cases h
        exact ⟨l, hscan, rfl, hfinite⟩
      · rintro ⟨l', hl, rfl, -⟩
        cases Option.some.inj (hscan.symm.trans hl)
        rfl
    · rw [if_neg hfinite]
      refine ⟨fun h => (nomatch h), ?_⟩
      rintro ⟨l', hl, rfl, hfinite'⟩
      cases hscan.symm.trans hl
      exact absurd hfinite' hfinite

theorem not_tooLong_number : ¬ TooLong (number (α := Float) s) := by
  rintro ⟨f, n, hf, hn⟩
  unfold number at hf
  split at hf
  · cases hf
    cases hn
  · dsimp only at hf
    split at hf
    · cases hf
    · cases hf
      cases hn

theorem number_reads (s : List Char) : Reads (number (α := Float) s) .number s where
  sound x r hx := by
    obtain ⟨blanks, hs, hblank⟩ := exists_blanks s
    obtain ⟨l, hscan, rfl, hfinite⟩ := number_eq_ok_iff.1 hx
    obtain ⟨cs, hcs, hwritten⟩ := Literal.exists_of_scan? hscan
    refine ⟨[.number cs], blanks ++ (cs ++ []), .written hwritten hfinite, by simp [Short],
      .cons hblank .nil, ?_⟩
    rw [List.append_nil, List.append_assoc, ← hcs, ← hs]
  complete ts x u r hform hspaced hs hr := by
    cases hform with
    | @written cs l hwritten hfinite =>
      obtain ⟨c, rest, hcs, hc⟩ := hwritten.exists_cons
      have hsolid : Solid (.number cs) := ⟨c, rest, hcs, Written.not_isBlank hc⟩
      obtain ⟨v, hv, hskip⟩ := skipBlank_of_spaced hsolid hspaced hs
      cases hv
      have hscan : Literal.scan? (skipBlank s) = some (l, r) := by
        rw [hskip]
        exact Literal.scan?_append hwritten hr.literal
      have hlt := Nat.lt_of_lt_of_le (Literal.scan?_length hscan) (skipBlank_length s)
      exact .inl ⟨⟨r, hlt⟩, number_eq_ok_iff.2 ⟨l, hscan, rfl, hfinite⟩, rfl⟩
  long hlong := absurd hlong not_tooLong_number

end BarReplay.Rule.Parser
