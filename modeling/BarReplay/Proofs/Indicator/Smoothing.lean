import BarReplay.Proofs.Indicator.History

namespace BarReplay.Indicator

open Amount

variable {α : Type} [Amount α]

theorem exponentialAverage_tells {period : Nat} {k : α}
    (hk : SeededAverage.fraction period = .ok k) :
    (exponentialAverage period : Study α _).Tells
      (fun shown state =>
        state = (k, .after period (SeededAverage.exponential k) (shown.map Bar.close)))
      fun shown reading => reading = .scalar
        (SeededAverage.after period (SeededAverage.exponential k) (shown.map Bar.close)).average where
  start h := by
    simp only [exponentialAverage, hk] at h
    cases h
    rfl
  step {shown b state next valid reading} hstate h := by
    subst hstate
    cases h
    rw [List.map_append, List.map_singleton, SeededAverage.after_concat]
    exact ⟨rfl, rfl⟩

-- The true range of every bar.
def trueRanges (bars : List (Bar α)) : List α :=
  (withPrevious bars).map fun (b, previous) => b.trueRange (previous.map Bar.close)

theorem trueRanges_length (bars : List (Bar α)) : (trueRanges bars).length = bars.length := by
  simp [trueRanges, withPrevious]

theorem trueRanges_concat (bars : List (Bar α)) (b : Bar α) :
    trueRanges (bars ++ [b]) = trueRanges bars ++ [b.trueRange (bars.getLast?.map Bar.close)] := by
  rw [trueRanges, withPrevious_concat, List.map_append]
  rfl

theorem averageTrueRange_tells (period : Nat) :
    (averageTrueRange period : Study α _).Tells
      (fun shown state => state = .after period (SeededAverage.wilder period) (trueRanges shown))
      fun shown reading => reading = .scalar
        (SeededAverage.after period (SeededAverage.wilder period) (trueRanges shown)).average where
  start h := by
    cases h
    rfl
  step {shown b state next valid reading} hstate h := by
    subst hstate
    cases h
    rw [Moment.previous_shown, trueRanges_concat, SeededAverage.after_concat]
    exact ⟨rfl, rfl⟩

-- How far every close but the first is from the one before it.
def changes (bars : List (Bar α)) : List α :=
  List.zipWith (fun previous b => b.close - previous.close) bars (bars.drop 1)

theorem changes_length (bars : List (Bar α)) : (changes bars).length = bars.length - 1 := by
  rw [changes, List.length_zipWith, List.length_drop]
  omega

theorem changes_concat {bars : List (Bar α)} {previous : Bar α}
    (h : bars.getLast? = some previous) (b : Bar α) :
    changes (bars ++ [b]) = changes bars ++ [b.close - previous.close] := by
  induction bars with
  | nil => cases h
  | cons first bars ih =>
    cases bars with
    | nil =>
      cases h
      rfl
    | cons second rest =>
      rw [List.getLast?_cons_cons] at h
      exact congrArg (_ :: ·) (ih h)

-- The changes up to a bar, but for the first ones.
theorem exists_change_iff (bars : List (Bar α)) (i m : Nat) (p : α → Prop) :
    (∃ c ∈ (changes (bars.take (i + 1))).drop m, p c) ↔ ∃ j, (m < j ∧ j ≤ i) ∧ ∃ previous b,
      bars[j - 1]? = some previous ∧ bars[j]? = some b ∧ p (b.close - previous.close) := by
  simp only [List.mem_iff_getElem?, changes, List.getElem?_drop, List.getElem?_zipWith_eq_some,
    List.getElem?_take, Option.ite_none_right_eq_some]
  constructor
  · rintro ⟨c, ⟨k, previous, b, ⟨-, hprevious⟩, ⟨hi, hb⟩, rfl⟩, hp⟩
    rw [Nat.add_comm 1] at hi hb
    exact ⟨m + k + 1, ⟨by omega, by omega⟩, previous, b, hprevious, hb, hp⟩
  · rintro ⟨j, ⟨hm, hi⟩, previous, b, hprevious, hb, hp⟩
    obtain ⟨k, rfl⟩ : ∃ k, j = 1 + (m + k) := ⟨j - 1 - m, by omega⟩
    rw [Nat.add_sub_cancel_left] at hprevious
    exact ⟨_, ⟨k, previous, b, ⟨by omega, hprevious⟩, ⟨by omega, hb⟩, rfl⟩, hp⟩

-- Wilder's average of what is measured of the changes.
def averageMove (period : Nat) (measure : α → α) (bars : List (Bar α)) : SeededAverage α :=
  .after period (SeededAverage.wilder period) ((changes bars).map measure)

theorem averageMove_concat {shown : List (Bar α)} {previous : Bar α}
    (hprevious : shown.getLast? = some previous) (period : Nat) (measure : α → α) (b : Bar α) :
    averageMove period measure (shown ++ [b]) = (averageMove period measure shown).push period
      (SeededAverage.wilder period) (measure (b.close - previous.close)) := by
  rw [averageMove, changes_concat hprevious, List.map_append]
  exact SeededAverage.after_concat _ _

-- Gains and losses are averaged apart. The first bar has neither.
theorem strengthIndex_tells {period : Nat} (hperiod : 1 ≤ period) :
    (strengthIndex period : Study α _).Tells
      (fun shown state => state = (averageMove period gain shown, averageMove period loss shown))
      fun shown reading => period < shown.length → reading = .scalar (relativeStrength
        (averageMove period gain shown).average (averageMove period loss shown).average) where
  start h := by
    cases h
    rfl
  step {shown b state next valid reading} hstate h := by
    subst hstate
    simp only [strengthIndex, Moment.previous_shown] at h
    cases hprevious : shown.getLast? with
    | none =>
      rw [hprevious] at h
      cases h
      rw [List.getLast?_eq_none_iff.1 hprevious]
      refine ⟨rfl, fun hlong => absurd hlong ?_⟩
      rw [List.nil_append, List.length_singleton]
      omega
    | some previous =>
      rw [hprevious] at h
      cases h
      simp only [← averageMove_concat hprevious, true_and]
      intro hlong
      rw [if_pos]
      rw [SeededAverage.ready_iff, averageMove, SeededAverage.after_seen, List.length_map,
        changes_length]
      omega

-- What the shares of some bars were worth at their typical prices.
def worth (bars : List (Bar α)) : α :=
  sum (bars.map fun b => b.typicalPrice * b.volume)

def volume (bars : List (Bar α)) : α :=
  sum (bars.map Bar.volume)

theorem volumeWeightedPrice_tells :
    (volumeWeightedPrice : Study α _).Tells
      (fun shown state => state = (worth shown, volume shown))
      fun shown reading => ∃ b ∈ shown, reading = .scalar
        (if 0 < volume shown then worth shown / volume shown else b.typicalPrice) where
  start h := by
    cases h
    rfl
  step {shown b state next valid reading} hstate h := by
    subst hstate
    cases h
    simp only [worth, volume, List.map_append, List.map_singleton, sum_concat]
    exact ⟨trivial, b, List.mem_append_right _ List.mem_cons_self, rfl⟩

end BarReplay.Indicator
