import BarReplay.Amount.Double

namespace BarReplay

-- A JSON value. Whole numbers are kept apart from those with a point or an exponent, and the
-- members of an object keep their order.
inductive Json where
  | null
  | bool (b : Bool)
  | int (n : Int)
  | real (x : Float)
  | text (s : String)
  | list (items : List Json)
  | object (members : List (String × Json))

namespace Json

-- Puts a member, in the place of one of the same name if there is one.
def put (members : List (String × Json)) (name : String) (value : Json) : List (String × Json) :=
  if members.any (·.1 == name) then
    members.map fun m => if m.1 == name then (name, value) else m
  else
    members ++ [(name, value)]

-- The member of an object; a value of another kind has none.
def get? (j : Json) (name : String) : Option Json :=
  match j with
  | object members => members.lookup name
  | _ => none

def toText? : Json → Option String
  | text s => some s
  | _ => none

def toList? : Json → Option (List Json)
  | list items => some items
  | _ => none

def toBool? : Json → Option Bool
  | bool b => some b
  | _ => none

-- A number, or the name of one that is not finite.
def toFloat? : Json → Option Float
  | int n => some (Decimal.Binary64.nearest (decide (n < 0)) n.natAbs 1)
  | real x => some x
  | text "nan" => some (0.0 / 0.0)
  | text "inf" => some (1.0 / 0.0)
  | text "-inf" => some (-1.0 / 0.0)
  | _ => none

-- A whole number, written with a point or without.
def toInt? : Json → Option Int
  | int n => some n
  | real x => (Double.floor x).toOption
  | _ => none

-- The values inside a value are smaller.

theorem sizeOf_lookup_lt {name : String} {value : Json} {members : List (String × Json)}
    (h : members.lookup name = some value) : sizeOf value < sizeOf members := by
  induction members with
  | nil => simp at h
  | cons m rest ih =>
    obtain ⟨n, v⟩ := m
    rw [List.lookup_cons] at h
    split at h
    · cases h
      simp only [List.cons.sizeOf_spec, Prod.mk.sizeOf_spec]
      omega
    · have := ih h
      simp only [List.cons.sizeOf_spec]
      omega

theorem sizeOf_get?_lt {name : String} {j value : Json} (h : j.get? name = some value) :
    sizeOf value < sizeOf j := by
  cases j with
  | object members =>
    have := sizeOf_lookup_lt h
    simp only [object.sizeOf_spec]
    omega
  | _ => simp [get?] at h

theorem sizeOf_toList?_lt {j value : Json} {items : List Json} (h : j.toList? = some items)
    (hmem : value ∈ items) : sizeOf value < sizeOf j := by
  cases j with
  | list xs =>
    cases h
    have := List.sizeOf_lt_of_mem hmem
    simp only [list.sizeOf_spec]
    omega
  | _ => simp [toList?] at h

end Json

end BarReplay
