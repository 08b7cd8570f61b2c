import Mathlib.Data.List.Induction
import BarReplay.Proofs.Amount.ExactSum
import BarReplay.Proofs.Decimal.Difference

namespace BarReplay

-- Amounts of which any two can be compared.
structure TotallyOrdered {α : Type} [Amount α] (proper : α → Prop) : Prop where
  not_lt_iff : ∀ {x y : α}, proper x → proper y → (¬ x < y ↔ y ≤ x)
  le_of_lt : ∀ {x y : α}, proper x → proper y → x < y → x ≤ y
  le_trans : ∀ {x y z : α}, proper x → proper y → proper z → x ≤ y → y ≤ z → x ≤ z

namespace TotallyOrdered

variable {α : Type} [Amount α] {proper : α → Prop} {x y z : α}

theorem le_refl (ho : TotallyOrdered proper) (hx : proper x) : x ≤ x := by
  by_contra hnot
  have hlt : x < x := by
    by_contra hnlt
    exact hnot ((ho.not_lt_iff hx hx).1 hnlt)
  exact hnot (ho.le_of_lt hx hx hlt)

theorem not_le_of_lt (ho : TotallyOrdered proper) (hx : proper x) (hy : proper y) (h : x < y) :
    ¬ y ≤ x :=
  fun hle => (ho.not_lt_iff hx hy).2 hle h

theorem lt_of_not_le (ho : TotallyOrdered proper) (hx : proper x) (hy : proper y) (h : ¬ y ≤ x) :
    x < y := by
  by_contra hnlt
  exact h ((ho.not_lt_iff hx hy).1 hnlt)

theorem lt_of_le_of_lt (ho : TotallyOrdered proper) (hx : proper x) (hy : proper y)
    (hz : proper z) (hxy : x ≤ y) (hyz : y < z) : x < z := by
  apply ho.lt_of_not_le hx hz
  intro hzx
  exact ho.not_le_of_lt hy hz hyz (ho.le_trans hz hx hy hzx hxy)

theorem lt_of_lt_of_le (ho : TotallyOrdered proper) (hx : proper x) (hy : proper y)
    (hz : proper z) (hxy : x < y) (hyz : y ≤ z) : x < z := by
  apply ho.lt_of_not_le hx hz
  intro hzx
  exact ho.not_le_of_lt hx hy hxy (ho.le_trans hy hz hx hyz hzx)

-- Doubles are ordered unless they are no numbers.
theorem doubles : TotallyOrdered fun x : Float => x.isNaN = false where
  not_lt_iff {x y} hx hy := by
    rw [Double.not_lt_iff, hx, hy]
    simp only [Bool.false_eq_true, or_false]
  le_of_lt _ _ h := Double.le_of_lt h
  le_trans hx hy hz hxy hyz := Double.le_trans hx hy hz hxy hyz

theorem exact {K : Type} [Field K] [LinearOrder K] [FloorRing K] [Roots K] :
    TotallyOrdered fun _ : K => True where
  not_lt_iff _ _ := not_lt
  le_of_lt _ _ h := h.le
  le_trans _ _ _ hxy hyz := hxy.trans hyz

theorem of_imp {few : α → Prop} (ho : TotallyOrdered proper) (h : ∀ x, few x → proper x) :
    TotallyOrdered few where
  not_lt_iff hx hy := ho.not_lt_iff (h _ hx) (h _ hy)
  le_of_lt hx hy := ho.le_of_lt (h _ hx) (h _ hy)
  le_trans hx hy hz := ho.le_trans (h _ hx) (h _ hy) (h _ hz)

end TotallyOrdered

-- Zero and the amounts above it.
def FromZero {α : Type} [Amount α] (x : α) : Prop :=
  x = 0 ∨ 0 < x

-- What is needed of an arithmetic to tell gains from losses.
structure Sides (α : Type) [Amount α] : Prop where
  ordered : TotallyOrdered (FromZero (α := α))
  antisymm : ∀ {x y : α}, FromZero x → FromZero y → x ≤ y → y ≤ x → x = y
  not_neg : ∀ {x : α}, 0 < x → ¬ x < 0
  neg_pos : ∀ {x : α}, x < 0 → 0 < -x

theorem FromZero.isNaN {x : Float} (h : FromZero x) : x.isNaN = false := by
  rcases h with rfl | hpos
  · rfl
  · exact Double.isNaN_of_pos hpos

namespace Sides

theorem doubles : Sides Float where
  ordered := TotallyOrdered.doubles.of_imp fun _ h => h.isNaN
  antisymm hx hy hxy hyx := by
    rcases hx with rfl | hpos
    · rcases hy with rfl | hpos
      · rfl
      · exact absurd hpos (Double.not_lt_of_le hyx)
    · exact Double.eq_of_pos hpos hxy hyx
  not_neg h := Double.not_lt_of_le (Double.le_of_lt h)
  neg_pos h := Double.neg_pos h

theorem exact {K : Type} [Field K] [LinearOrder K] [IsStrictOrderedRing K] [FloorRing K]
    [Roots K] : Sides K where
  ordered := TotallyOrdered.exact.of_imp fun _ _ => trivial
  antisymm _ _ hxy hyx := le_antisymm hxy hyx
  not_neg h := not_lt.2 h.le
  neg_pos h := Left.neg_pos_iff.2 h

end Sides

-- What is needed of an arithmetic to measure a range: what its ends are, and when it is empty.
structure Spans (α : Type) [Amount α] : Prop where
  irrefl : ∀ x : α, ¬ x < x
  trans : ∀ {x y z : α}, x < y → y < z → x < z
  empty_iff : ∀ x y : α, Amount.same (x - y) 0 = true ↔
    Amount.same x y = true ∧ Amount.isFinite x = true

-- Nothing is above the highest of some amounts, and nothing is below the lowest. What is no number
-- is neither above nor below anything.

def Highest {α : Type} [Amount α] (x : α) (xs : List α) : Prop :=
  x ∈ xs ∧ ∀ y ∈ xs, ¬ x < y

def Lowest {α : Type} [Amount α] (x : α) (xs : List α) : Prop :=
  x ∈ xs ∧ ∀ y ∈ xs, ¬ y < x

-- Going through some amounts with the best so far, nothing turns out better than what is left.
theorem foldl_best {α : Type} {better : α → α → Prop} [DecidableRel better]
    (hirrefl : ∀ x, ¬ better x x) (htrans : ∀ {x y z}, better x y → better y z → better x z)
    (x : α) (xs : List α) :
    xs.foldl (fun best y => if better y best then y else best) x ∈ x :: xs ∧
      ∀ y ∈ x :: xs, ¬ better y (xs.foldl (fun best y => if better y best then y else best) x) := by
  induction xs using List.reverseRecOn with
  | nil => exact ⟨List.mem_cons_self, List.forall_mem_singleton.2 (hirrefl x)⟩
  | append_singleton xs y ih =>
    obtain ⟨hmem, hbest⟩ := ih
    rw [List.foldl_append, List.foldl_cons, List.foldl_nil, ← List.cons_append]
    generalize xs.foldl (fun best y => if better y best then y else best) x = best at hmem hbest ⊢
    simp only [List.forall_mem_append, List.forall_mem_singleton]
    by_cases hy : better y best
    · rw [if_pos hy]
      exact ⟨List.mem_append_right _ List.mem_cons_self,
        fun z hz hzy => hbest z hz (htrans hzy hy), hirrefl y⟩
    · rw [if_neg hy]
      exact ⟨List.mem_append_left _ hmem, hbest, hy⟩

namespace Spans

theorem doubles : Spans Float where
  irrefl x h := Double.not_lt_of_le (Double.le_of_lt h) h
  trans hxy hyz := by
    obtain ⟨hx, hy⟩ := Double.isNaN_of_lt hxy
    obtain ⟨-, hz⟩ := Double.isNaN_of_lt hyz
    exact TotallyOrdered.doubles.lt_of_lt_of_le hx hy hz hxy (Double.le_of_lt hyz)
  empty_iff := Double.same_sub_zero_iff

theorem exact {K : Type} [Field K] [LinearOrder K] [FloorRing K] [Roots K] : Spans K where
  irrefl := lt_irrefl
  trans := lt_trans
  empty_iff x y := by
    rw [Amount.same_iff, Amount.same_iff, sub_eq_zero]
    exact (and_iff_left rfl).symm

variable {α : Type} [Amount α]

theorem highest_maximum (hs : Spans α) (x : α) (xs : List α) :
    Highest (Amount.maximum x xs) (x :: xs) := by
  have htrans {x y z : α} (h : y < x) (h' : z < y) : z < x := hs.trans h' h
  exact @foldl_best α (fun x y => y < x) _ hs.irrefl htrans x xs

theorem lowest_minimum (hs : Spans α) (x : α) (xs : List α) :
    Lowest (Amount.minimum x xs) (x :: xs) :=
  foldl_best hs.irrefl hs.trans x xs

end Spans

end BarReplay
