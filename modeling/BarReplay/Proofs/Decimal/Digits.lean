import Mathlib.Tactic.Ring
import BarReplay.Decimal.Shortest
import BarReplay.Proofs.Decimal.Scanning

namespace BarReplay.Decimal

open Text

theorem value_append (ds es : List Nat) :
    value (ds ++ es) = value ds * 10 ^ es.length + value es := by
  have hfold (n : Nat) : es.foldl (fun n d => n * 10 + d) n = n * 10 ^ es.length + value es := by
    induction es generalizing n with
    | nil => simp [value]
    | cons e es ih =>
      rw [value, List.foldl_cons, List.foldl_cons, ih, ih, List.length_cons]
      ring
  rw [value, List.foldl_append, hfold]
  rfl

theorem Digits.append {cs bs : List Char} {ds es : List Nat} (h : Digits cs ds)
    (h' : Digits bs es) : Digits (cs ++ bs) (ds ++ es) := by
  rw [Digits, List.map_append, List.map_append, h, h']

theorem Digits.split {cs bs : List Char} {ds : List Nat} (h : Digits (cs ++ bs) ds) :
    ∃ es fs, ds = es ++ fs ∧ Digits cs es ∧ Digits bs fs := by
  rw [Digits, List.map_append, eq_comm, List.map_eq_append_iff] at h
  obtain ⟨es, fs, hds, hes, hfs⟩ := h
  exact ⟨es, fs, hds, hes.symm, hfs.symm⟩

theorem Digits.take {cs : List Char} {ds : List Nat} (h : Digits cs ds) (n : Nat) :
    Digits (cs.take n) (ds.take n) := by
  rw [Digits, List.map_take, h, List.map_take]

theorem Digits.drop {cs : List Char} {ds : List Nat} (h : Digits cs ds) (n : Nat) :
    Digits (cs.drop n) (ds.drop n) := by
  rw [Digits, List.map_drop, h, List.map_drop]

theorem Digits.unique {cs : List Char} {ds es : List Nat} (h : Digits cs ds) (h' : Digits cs es) :
    ds = es := by
  have heq : ds.map some = es.map some := h.symm.trans h'
  exact (List.map_inj_right fun _ _ => Option.some.inj).1 heq

theorem digits_zeros (k : Nat) : Digits (List.replicate k '0') (List.replicate k 0) := by
  rw [Digits, List.map_replicate, List.map_replicate]
  rfl

theorem value_zeros (k : Nat) : value (List.replicate k 0) = 0 := by
  induction k with
  | zero => rfl
  | succ k ih => simpa [value, List.replicate_succ] using ih

theorem digits_digitChar {d : Nat} (hd : d < 10) : Digits [d.digitChar] [d] := by
  have hall : ∀ d < 10, decimalDigit? d.digitChar = some d := by decide
  simpa [Digits] using hall d hd

-- A whole number is the value of its digits.
theorem exists_digits (n : Nat) : ∃ ds, Digits (digits n) ds ∧ ds ≠ [] ∧ value ds = n := by
  induction n using Nat.strongRecOn with
  | ind n ih =>
    obtain hlt | hle := Nat.lt_or_ge n 10
    · refine ⟨[n], ?_, by simp, by simp [value]⟩
      rw [digits, Nat.toDigits_of_lt_base hlt]
      exact digits_digitChar hlt
    · obtain ⟨ds, hds, -, hvalue⟩ := ih (n / 10) (by omega)
      refine ⟨ds ++ [n % 10], ?_, by simp, ?_⟩
      · rw [digits, Nat.toDigits_of_base_le (by omega) hle]
        exact hds.append (digits_digitChar (by omega))
      · rw [value_append, hvalue]
        simp [value]
        omega

theorem exists_padded (width n : Nat) :
    ∃ ds, Digits (padded width n).toList ds ∧ ds ≠ [] ∧ value ds = n := by
  obtain ⟨ds, hds, hne, hvalue⟩ := exists_digits n
  refine ⟨List.replicate (width - (digits n).length) 0 ++ ds, ?_, by simp [hne], ?_⟩
  · rw [padded, String.toList_ofList]
    exact (digits_zeros _).append hds
  · rw [value_append, value_zeros, hvalue]
    omega

-- Zeros at the end are left out, and nothing else.
theorem exists_trimZeros (cs : List Char) :
    ∃ k, cs = Shortest.trimZeros cs ++ List.replicate k '0' := by
  refine ⟨(cs.reverse.takeWhile (· = '0')).length, ?_⟩
  have hzeros : cs.reverse.takeWhile (· = '0') =
      List.replicate (cs.reverse.takeWhile (· = '0')).length '0' := by
    rw [List.eq_replicate_iff]
    refine ⟨rfl, fun c hc => ?_⟩
    simpa using List.all_eq_true.1 List.all_takeWhile c hc
  rw [Shortest.trimZeros, ← List.reverse_replicate, ← hzeros, ← List.reverse_append,
    List.takeWhile_append_dropWhile, List.reverse_reverse]

theorem exists_trimmed (n : Nat) :
    ∃ ds k, Digits (Shortest.trimZeros (digits n)) ds ∧ value ds * 10 ^ k = n ∧
      (digits n).length = ds.length + k := by
  obtain ⟨k, hk⟩ := exists_trimZeros (digits n)
  obtain ⟨all, hall, -, hvalue⟩ := exists_digits n
  rw [hk] at hall
  obtain ⟨ds, zs, rfl, hds, hzs⟩ := hall.split
  rw [hzs.unique (digits_zeros k), value_append, value_zeros, List.length_replicate] at hvalue
  refine ⟨ds, k, hds, hvalue, ?_⟩
  conv_lhs => rw [hk]
  rw [List.length_append, List.length_replicate, hds.length_eq]

end BarReplay.Decimal
