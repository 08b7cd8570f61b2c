import BarReplay.Proofs.Decimal.Order
import BarReplay.Proofs.Except
import BarReplay.Yahoo.Response

namespace BarReplay.Yahoo.Response

variable {β γ : Type}

-- A calculation that does not break down. It may fail with a word about what is wrong.
def Sound (r : Except Error β) : Prop :=
  ∀ cause, r ≠ .error (.breakdown cause)

theorem sound_ok (x : β) : Sound (.ok x) := nofun

theorem sound_pure (x : β) : Sound (pure x) := sound_ok x

theorem sound_flaw (f : Flaw) : Sound (.error (.flaw f) : Except Error β) := nofun

theorem sound_source (e : SourceError) : Sound (.error (.source e) : Except Error β) := nofun

theorem not_sound_breakdown (cause : Breakdown) :
    ¬ Sound (.error (.breakdown cause) : Except Error β) :=
  fun h => h cause rfl

theorem sound_bind {r : Except Error β} {f : β → Except Error γ} :
    Sound (r >>= f) ↔ Sound r ∧ ∀ x, r = .ok x → Sound (f x) := by
  constructor
  · intro h
    exact ⟨fun cause hr => h cause (except_bind_eq_error.2 (.inl hr)),
      fun x hx cause hf => h cause (except_bind_eq_error.2 (.inr ⟨x, hx, hf⟩))⟩
  · rintro ⟨hr, hf⟩ cause h
    obtain hr' | ⟨x, hx, hf'⟩ := except_bind_eq_error.1 h
    · exact hr cause hr'
    · exact hf x hx cause hf'

theorem sound_map {r : Except Error β} {f : β → γ} :
    Sound (r >>= fun x => pure (f x)) ↔ Sound r := by
  simp only [sound_bind, sound_pure, implies_true, and_true]

-- A calculation that is left out on a condition.
theorem sound_unless {c : Prop} [Decidable c] {x : β} {r : Except Error β} :
    Sound (if c then pure x else r) ↔ (¬ c → Sound r) := by
  split
  · rename_i h
    exact iff_of_true (sound_pure x) (absurd h)
  · rename_i h
    exact ⟨fun hr _ => hr, fun hr => hr h⟩

-- What has members.
def IsObject : Json → Prop
  | .object _ => True
  | _ => False

-- What can be gone through.
def IsSequence : Json → Prop
  | .list _ | .text _ | .object _ => True
  | _ => False

-- What can be asked for an element at a place. An object has none to give, and is only not asked
-- behind its last name.
def HasPlaces (place : Nat) : Json → Prop
  | .list _ | .text _ => True
  | .object members => members.length ≤ place
  | _ => False

-- The value of a member, and of one that may be missing altogether.
def memberOf (name : String) (j : Json) : Json :=
  (j.get? name).getD .null

def memberOrEmptyOf (name : String) (j : Json) : Json :=
  (j.get? name).getD (.object [])

-- What there is at a place.
def elementOf (place : Nat) : Json → Json
  | .list items => (items[place]?).getD .null
  | .text s => ((s.toList[place]?).map fun c => Json.text c.toString).getD .null
  | _ => .null

def elementsOf : Json → List Json
  | .list items => items
  | .text s => s.toList.map fun c => .text c.toString
  | .object members => members.map fun m => .text m.1
  | _ => []

-- A calculation that goes on from the value of a part, if the value has such a part.
theorem sound_member_bind {j : Json} {name : String} {f : Json → Except Error β} :
    Sound (member j name >>= f) ↔ IsObject j ∧ Sound (f (memberOf name j)) := by
  cases j with
  | object members => simp [member, sound_bind, sound_ok, IsObject, memberOf, Json.get?]
  | _ => simp [member, sound_bind, not_sound_breakdown, IsObject]

theorem sound_memberOrEmpty_bind {j : Json} {name : String} {f : Json → Except Error β} :
    Sound (memberOrEmpty j name >>= f) ↔ IsObject j ∧ Sound (f (memberOrEmptyOf name j)) := by
  cases j with
  | object members =>
    simp [memberOrEmpty, sound_bind, sound_ok, IsObject, memberOrEmptyOf, Json.get?]
  | _ => simp [memberOrEmpty, sound_bind, not_sound_breakdown, IsObject]

theorem sound_elements_bind {j : Json} {f : List Json → Except Error β} :
    Sound (elements j >>= f) ↔ IsSequence j ∧ Sound (f (elementsOf j)) := by
  cases j <;> simp [elements, sound_bind, sound_ok, not_sound_breakdown, IsSequence, elementsOf]

theorem element_eq {j : Json} {place : Nat} (h : HasPlaces place j) :
    element j place = .ok (elementOf place j) := by
  cases j with
  | list items =>
    unfold element elementOf
    cases hplace : items[place]? <;> simp [elements, Bind.bind, Except.bind, hplace]
  | text s =>
    unfold element elementOf
    cases hplace : s.toList[place]? <;> simp [elements, Bind.bind, Except.bind, hplace]
  | object members =>
    have hnone : members[place]? = none := List.getElem?_eq_none h
    simp [element, elementOf, elements, Bind.bind, Except.bind, hnone]
  | _ => cases h

theorem sound_element {j : Json} {place : Nat} : Sound (element j place) ↔ HasPlaces place j := by
  constructor
  · intro h
    cases j with
    | list items => trivial
    | text s => trivial
    | object members =>
      rw [HasPlaces, ← Nat.not_lt]
      intro hplace
      refine h .noElement ?_
      simp [element, elements, Bind.bind, Except.bind, hplace]
    | _ => exact absurd rfl (h .wrongKind)
  · intro h
    rw [element_eq h]
    exact sound_ok _

theorem sound_element_bind {j : Json} {place : Nat} {f : Json → Except Error β} :
    Sound (element j place >>= f) ↔ HasPlaces place j ∧ Sound (f (elementOf place j)) := by
  rw [sound_bind, sound_element, and_congr_right_iff]
  intro h
  simp [element_eq h]

section Numbers

theorem truncate_eq_error_iff {x : Float} {f : Fault} :
    truncate x = .error f ↔
      x.isNaN = true ∧ f = .undefinedWhole ∨ x.isInf = true ∧ f = .overflow := by
  obtain ⟨hnumber, hbounded⟩ := Double.kind_neg x
  unfold truncate
  split
  · rw [except_bind_eq_error, Double.floor_eq_error_iff, hnumber, hbounded]
    simp [pure, Except.pure]
  · exact Double.floor_eq_error_iff

-- A number that is undefined is a flaw. All else that goes wrong with a number breaks down.
theorem sound_ofFault {undefined : Flaw} {r : Except Fault β} :
    Sound (ofFault undefined r) ↔ ∀ f, r = .error f → f = .undefinedWhole := by
  cases r with
  | ok x => simp [ofFault, sound_ok]
  | error f =>
    cases f <;> simp [ofFault, sound_flaw, not_sound_breakdown]

-- What can be taken for a whole number, if only to say that it is none.
def IsWhole : Json → Prop
  | .int _ | .bool _ | .text _ => True
  | .real x => x.isInf = false
  | _ => False

-- What can be taken for a price. A whole number has to be one of the doubles' range.
def IsPrice : Json → Prop
  | .int n => n.natAbs + 2 ^ 970 < 2 ^ 1024
  | .bool _ | .real _ | .text _ => True
  | _ => False

-- What can be taken for a time that is some seconds ahead.
def IsTime (offset : Int) : Json → Prop
  | .int _ | .bool _ => True
  | .real x => ∀ f, (do secondOf (x + (← Double.ofInt offset))) = .error f → f = .undefinedWhole
  | _ => False

-- A second that a clock of 64 bits reaches, in a year of 32 bits.
def OnClock (second : Int) : Prop :=
  -2 ^ 63 ≤ second ∧ second < 2 ^ 63 ∧
    -2 ^ 31 ≤ (Date.yearOfOrdinal (Date.ordinalOfSeconds second)).1 - 1900 ∧
    (Date.yearOfOrdinal (Date.ordinalOfSeconds second)).1 - 1900 < 2 ^ 31

theorem sound_toInt {j : Json} : Sound (toInt j) ↔ IsWhole j := by
  cases j with
  | real x =>
    rw [toInt, sound_ofFault, IsWhole]
    simp only [truncate_eq_error_iff]
    constructor
    · intro h
      by_contra hinf
      cases h .overflow (.inr ⟨Bool.not_eq_false _ ▸ hinf, rfl⟩)
    · rintro hinf f (⟨-, rfl⟩ | ⟨h, -⟩)
      · rfl
      · rw [hinf] at h
        cases h
  | text s =>
    simp only [toInt, IsWhole, iff_true]
    split
    · exact sound_ok _
    · exact sound_flaw _
  | int n => exact iff_of_true (sound_ok _) trivial
  | bool b => exact iff_of_true (sound_ok _) trivial
  | _ => exact iff_of_false (not_sound_breakdown _) id

theorem sound_toNumber {j : Json} : Sound (toNumber j) ↔ IsPrice j := by
  cases j with
  | int n =>
    rw [toNumber, sound_ofFault, IsPrice]
    simp only [Double.ofInt_eq_error_iff]
    constructor
    · intro h
      by_contra hlarge
      cases h .overflow ⟨rfl, Nat.not_lt.1 hlarge⟩
    · rintro hsmall f ⟨rfl, hlarge⟩
      exact absurd hsmall (Nat.not_lt.2 hlarge)
  | text s =>
    simp only [toNumber, IsPrice, iff_true]
    split
    · exact sound_ok _
    · exact sound_flaw _
  | real x => exact iff_of_true (sound_ok _) trivial
  | bool b => exact iff_of_true (sound_ok _) trivial
  | _ => exact iff_of_false (not_sound_breakdown _) id

theorem sound_localSecond {offset : Int} {j : Json} :
    Sound (localSecond offset j) ↔ IsTime offset j := by
  cases j with
  | real x => exact sound_ofFault
  | int n => exact iff_of_true (sound_ok _) trivial
  | bool b => exact iff_of_true (sound_ok _) trivial
  | _ => exact iff_of_false (not_sound_breakdown _) id

theorem year_of_ofParts? {year month day : Nat} {d : Date}
    (h : Date.ofParts? year month day = some d) : d.year = year := by
  unfold Date.ofParts? at h
  split_ifs at h
  cases h
  rfl

theorem year_of_ofOrdinal? {n : Int} {d : Date} (h : Date.ofOrdinal? n = some d) :
    1 ≤ (Date.yearOfOrdinal n).1 ∧ (Date.yearOfOrdinal n).1 ≤ 9999 := by
  unfold Date.ofOrdinal? at h
  generalize Date.yearOfOrdinal n = parts at h ⊢
  obtain ⟨year, r⟩ := parts
  split at h
  · cases h
  · have hyear : d.year = year.toNat := year_of_ofParts? h
    have hvalid := d.year_le
    dsimp only
    omega

theorem sound_dayOf {second : Int} : Sound (dayOf second) ↔ OnClock second := by
  have h63 : Int.pow 2 63 = 2 ^ 63 := rfl
  have h31 : Int.pow 2 31 = 2 ^ 31 := rfl
  unfold dayOf OnClock
  dsimp only
  rw [h63, h31]
  split
  · exact iff_of_false (not_sound_breakdown _) (by omega)
  split
  · rename_i d hday
    obtain ⟨hfirst, hlast⟩ := year_of_ofOrdinal? hday
    exact iff_of_true (sound_ok _) (by omega)
  split
  · exact iff_of_false (not_sound_breakdown _) (by omega)
  · exact iff_of_true (sound_flaw _) (by omega)

end Numbers

end BarReplay.Yahoo.Response
