import BarReplay.Proofs.Rule.Readable

namespace BarReplay.Rule

variable {α : Type} [Amount α] {chart : Chart α} {r : Rule α} {a b n : Nat} {i m : Int}

-- One of the last `n` bars up to a bar. A window that is longer than the history reaches to bars
-- in front of it.
def InWindow (n : Nat) (i m : Int) : Prop :=
  i - n < m ∧ m ≤ i

-- Windows are walked back from their last bar.
theorem inWindow_iff : InWindow n i m ↔ ∃ k < n, i - (k : Nat) = m := by
  constructor
  · rintro ⟨hlow, hhigh⟩
    exact ⟨(i - m).toNat, by omega, by omega⟩
  · rintro ⟨k, hk, rfl⟩
    exact ⟨by omega, by omega⟩

theorem holds_not : (not r).holds chart i = !r.holds chart i :=
  rfl

theorem consecutive_holds_iff :
    (consecutive r n).holds chart i = true ↔
      (n : Int) ≤ i + 1 ∧ ∀ m, InWindow n i m → r.holds chart m = true := by
  simp only [holds, holdsBy, Bool.and_eq_true, decide_eq_true_iff, natAll_eq_true_iff, inWindow_iff,
    forall_exists_index, and_imp, forall_apply_eq_imp_iff₂]

-- A window that would reach to bars in front of the history begins with the first bar.
theorem anyOf_holds_iff :
    (anyOf r n).holds chart i = true ↔ ∃ m, InWindow n i m ∧ 0 ≤ m ∧ r.holds chart m = true := by
  simp only [holds, holdsBy, natAny_eq_true_iff, inWindow_iff]
  constructor
  · rintro ⟨k, hk, h⟩
    exact ⟨_, ⟨k, by omega, rfl⟩, by omega, h⟩
  · rintro ⟨_, ⟨k, hk, rfl⟩, hfirst, h⟩
    exact ⟨k, by omega, h⟩

-- The windows of length `a` that end in a window of length `b` make up one window.
theorem inWindow_add_iff (ha : 1 ≤ a) (hb : 1 ≤ b) :
    InWindow (a + b - 1) i m ↔ ∃ j, InWindow b i j ∧ InWindow a j m := by
  constructor
  · rintro ⟨hlow, hhigh⟩
    exact ⟨max m (i - b + 1), ⟨by omega, by omega⟩, by omega, by omega⟩
  · rintro ⟨j, ⟨hlow, hhigh⟩, hlow', hhigh'⟩
    exact ⟨by omega, by omega⟩

theorem consecutive_consecutive (ha : 1 ≤ a) (hb : 1 ≤ b) :
    (consecutive (consecutive r a) b).holds chart i =
      (consecutive r (a + b - 1)).holds chart i := by
  rw [Bool.eq_iff_iff]
  simp only [consecutive_holds_iff, inWindow_add_iff ha hb]
  constructor
  · rintro ⟨hb', h⟩
    -- the earliest inner window needs the whole history
    have hfirst := (h (i - b + 1) ⟨by omega, by omega⟩).1
    exact ⟨by omega, fun m ⟨j, hj, hm⟩ => (h j hj).2 m hm⟩
  · rintro ⟨hlong, h⟩
    exact ⟨by omega, fun j hj => ⟨by have := hj.1; omega, fun m hm => h m ⟨j, hj, hm⟩⟩⟩

theorem anyOf_anyOf (ha : 1 ≤ a) (hb : 1 ≤ b) :
    (anyOf (anyOf r a) b).holds chart i = (anyOf r (a + b - 1)).holds chart i := by
  rw [Bool.eq_iff_iff]
  simp only [anyOf_holds_iff, inWindow_add_iff ha hb]
  constructor
  · rintro ⟨j, hj, -, m, hm, hmem, h⟩
    exact ⟨m, ⟨j, hj, hm⟩, hmem, h⟩
  · rintro ⟨m, ⟨j, hj, hm⟩, hmem, h⟩
    exact ⟨j, hj, Int.le_trans hmem hm.2, m, hm, hmem, h⟩

-- With enough history, all of the bars are among those that a search of the window visits.
theorem consecutive_eq_not_anyOf_not (hi : (a : Int) - 1 ≤ i) :
    (consecutive r a).holds chart i = (not (anyOf (not r) a)).holds chart i := by
  rw [Bool.eq_iff_iff, holds_not, Bool.not_eq_true', ← Bool.not_eq_true, anyOf_holds_iff,
    consecutive_holds_iff]
  simp only [holds_not, Bool.not_eq_true', not_exists, not_and, Bool.not_eq_false]
  constructor
  · rintro ⟨-, h⟩ m hm -
    exact h m hm
  · intro h
    exact ⟨by omega, fun m hm => h m hm (by have := hm.1; omega)⟩

theorem consecutive_of_short (hi : i < (a : Int) - 1) :
    (consecutive r a).holds chart i = false := by
  rw [← Bool.not_eq_true, consecutive_holds_iff]
  omega

-- Windows in windows are longer windows, at bars of the chart and anywhere else. To hold
-- throughout a window is never to fail in it, as soon as the history is long enough for the
-- window, and before that it does not hold.
theorem windows_compose (chart : Chart α) (r : Rule α) (ha : 1 ≤ a) (hb : 1 ≤ b) (i : Int) :
    (consecutive (consecutive r a) b).holds chart i =
        (consecutive r (a + b - 1)).holds chart i ∧
      (anyOf (anyOf r a) b).holds chart i = (anyOf r (a + b - 1)).holds chart i ∧
      ((a : Int) - 1 ≤ i →
        (consecutive r a).holds chart i = (not (anyOf (not r) a)).holds chart i) ∧
      (i < (a : Int) - 1 → (consecutive r a).holds chart i = false) :=
  ⟨consecutive_consecutive ha hb, anyOf_anyOf ha hb, consecutive_eq_not_anyOf_not,
    consecutive_of_short⟩

-- A close above ten: the first bar of the climb fails, the other three do not.
def aboveTen : Rule Float :=
  .compare .above (.price .close) (.constant 10.0)

-- Three bars in a row end with the last bar of the climb and not with the one before it, and a
-- window of three that ends behind the chart still sees the last bar.
theorem windows_compose_climb :
    1 ≤ 2 ∧
      ((2 : Nat) : Int) - 1 ≤ 3 ∧ (0 : Int) < ((2 : Nat) : Int) - 1 ∧
      (consecutive (consecutive aboveTen 2) 2).holds ⟨climb, []⟩ 3 = true ∧
      (consecutive (consecutive aboveTen 2) 2).holds ⟨climb, []⟩ 2 = false ∧
      (anyOf (anyOf aboveTen 2) 2).holds ⟨climb, []⟩ 5 = true ∧
      (not (anyOf (not aboveTen) 2)).holds ⟨climb, []⟩ 3 = true ∧
      (consecutive aboveTen 2).holds ⟨climb, []⟩ 0 = false := by
  have htwo : 1 ≤ 2 := by decide
  have hlong : ((2 : Nat) : Int) - 1 ≤ 3 := by decide
  have hshort : (0 : Int) < ((2 : Nat) : Int) - 1 := by decide
  obtain ⟨hlast, -, hdual, -⟩ := windows_compose ⟨climb, []⟩ aboveTen htwo htwo 3
  obtain ⟨hsecond, -⟩ := windows_compose ⟨climb, []⟩ aboveTen htwo htwo 2
  obtain ⟨-, hbehind, -⟩ := windows_compose ⟨climb, []⟩ aboveTen htwo htwo 5
  obtain ⟨-, -, -, hnone⟩ := windows_compose ⟨climb, []⟩ aboveTen htwo htwo 0
  refine ⟨htwo, hlong, hshort, ?_, ?_, ?_, ?_, hnone hshort⟩
  · rw [hlast]
    decide
  · rw [hsecond]
    decide
  · rw [hbehind]
    decide
  · rw [← hdual hlong]
    decide

end BarReplay.Rule
