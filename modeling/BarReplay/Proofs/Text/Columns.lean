import BarReplay.Text.Utf8

namespace BarReplay.Text

theorem utf8Length_cons (c : Char) (cs : List Char) :
    utf8Length (c :: cs) = c.utf8Size + utf8Length cs := by
  have hshift (cs : List Char) (n : Nat) :
      cs.foldl (fun n c => n + c.utf8Size) n = n + utf8Length cs := by
    unfold utf8Length
    induction cs generalizing n with
    | nil => simp
    | cons d ds ih =>
      simp only [List.foldl_cons]
      rw [ih (n + d.utf8Size), ih (0 + d.utf8Size)]
      omega
  rw [utf8Length, List.foldl_cons, hshift]
  omega

-- Lengths are those of the encoded text.
theorem utf8Length_eq (cs : List Char) : utf8Length cs = (String.ofList cs).utf8ByteSize := by
  induction cs with
  | nil => rfl
  | cons c cs ih =>
    have hcons : String.ofList (c :: cs) = String.singleton c ++ String.ofList cs := by
      rw [← List.singleton_append, String.ofList_append, ← String.singleton_eq_ofList]
    rw [utf8Length_cons, hcons, String.utf8ByteSize_append, String.utf8ByteSize_singleton, ih]

theorem utf8Length_append (as bs : List Char) :
    utf8Length (as ++ bs) = utf8Length as + utf8Length bs := by
  simp only [utf8Length_eq, String.ofList_append, String.utf8ByteSize_append]

-- The bytes of the front of a text hold the characters of the front and no others.
theorem charsWithin_append (front rest : List Char) :
    charsWithin (utf8Length front) (front ++ rest) = front.length := by
  induction front with
  | nil =>
    cases rest with
    | nil => rfl
    | cons c cs =>
      have hpos := c.utf8Size_pos
      have hsmall : ¬ c.utf8Size ≤ utf8Length [] := by
        simp only [utf8Length, List.foldl_nil]
        omega
      rw [List.nil_append, charsWithin, if_neg hsmall]
      rfl
  | cons c cs ih =>
    rw [List.cons_append, charsWithin, utf8Length_cons, if_pos (Nat.le_add_right _ _),
      Nat.add_sub_cancel_left, ih]
    rfl

end BarReplay.Text
