import BarReplay.Proofs.Rule.Causal

namespace BarReplay

open Double Indicator

section

variable {α : Type} [Amount α]

-- What an operand reads over some bars when each indicator is computed for it alone.
def Operand.readOver (bars : List (Bar α)) (o : Operand α) (index : Int) : Option α :=
  match o with
  | .constant x => some x
  | .price f => if index < 0 then none else (bars[index.toNat]?).map f.of
  | .reading s f =>
    match s.series bars with
    | .ok series => series.valueAt? index f
    | .error _ => none

end

theorem closeTo_alike {x y x' y' : Float} (h : Alike x y) (h' : Alike x' y') :
    closeTo x x' = closeTo y y' :=
  decide_eq_decide.2 ((h.sub h').abs.lt_iff_lt (.refl _))

theorem lessThan_alike {x y x' y' : Float} (h : Alike x y) (h' : Alike x' y') :
    lessThan x x' = lessThan y y' :=
  decide_eq_decide.2 (h.lt_iff_lt h')

theorem atMost_alike {x y x' y' : Float} (h : Alike x y) (h' : Alike x' y') :
    atMost x x' = atMost y y' :=
  decide_eq_decide.2 (h.le_iff_le h')

theorem bothRead_alike {r : Float → Float → Bool}
    (hr : ∀ {x y x' y' : Float}, Alike x y → Alike x' y' → r x x' = r y y')
    {a b a' b' : Option Float} (h : Option.Rel Alike a b) (h' : Option.Rel Alike a' b') :
    bothRead r a a' = bothRead r b b' := by
  cases h with
  | none => rfl
  | some hab =>
    cases h' with
    | none => rfl
    | some hab' => exact hr hab hab'

theorem isBetween_alike (lower upper : Float) {a b : Option Float} (h : Option.Rel Alike a b) :
    isBetween lower upper a = isBetween lower upper b := by
  cases h with
  | none => rfl
  | some hab => simp only [isBetween, atMost_alike (.refl lower) hab, atMost_alike hab (.refl upper)]

-- Readings of the operands of some specs that differ in the signs of zeros only.
def ReadAlike (specs : List (Spec Float)) (read read' : Readings Float) : Prop :=
  ∀ o : Operand Float, o.specs ⊆ specs → ∀ index, Option.Rel Alike (read o index) (read' o index)

theorem ReadAlike.interchangeable {specs : List (Spec Float)} {read read' : Readings Float}
    (hread : ReadAlike specs read read') : Interchangeable specs (fun _ => True) read read' where
  compare c l r index hl hr _ := by
    cases c <;>
      simp only [Comparison.holdsBy, bothRead_alike atMost_alike (hread l hl _) (hread r hr _),
        bothRead_alike atMost_alike (hread r hr _) (hread l hl _),
        bothRead_alike lessThan_alike (hread l hl _) (hread r hr _),
        bothRead_alike lessThan_alike (hread r hr _) (hread l hl _),
        bothRead_alike closeTo_alike (hread l hl _) (hread r hr _)]
  between lower upper o index ho _ := isBetween_alike lower upper (hread o ho index)
  back _ _ _ := trivial

-- The sign of a zero makes no difference to a rule.
theorem Rule.holdsBy_alike {read read' : Readings Float} (r : Rule Float)
    (hread : ReadAlike r.specs read read') (index : Int) :
    r.holdsBy read index = r.holdsBy read' index :=
  holdsBy_congr hread.interchangeable r (List.Subset.refl _) index trivial

-- A chart with a series for every spec that is read reads as if each were computed for its
-- operand alone.
theorem readAlike_of_sound {bars : List (Bar Float)} {t : Table Float} (ht : t.Sound bars)
    {specs : List (Spec Float)} (hfound : ∀ s ∈ specs, (t.find? s).isSome = true) :
    ReadAlike specs (Chart.read? ⟨bars, t⟩) (Operand.readOver bars) := by
  intro o ho index
  cases o with
  | constant x => exact .some (.refl x)
  | price f => exact Alike.option_refl _
  | reading s f =>
    obtain ⟨series, hseries⟩ := Option.isSome_iff_exists.1 (hfound s (ho (by simp [Operand.specs])))
    obtain ⟨direct, hdirect, halike⟩ := ht.of_find? hseries
    simp only [Chart.read?, Operand.readOver, hseries, hdirect]
    exact halike.valueAt? index f

end BarReplay
