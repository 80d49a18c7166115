import Mathlib.Data.List.Basic

/-!
The values of a stored document: scalars, maps from keys to values and lists.
`D` is the type of its floating-point numbers.
-/

namespace DawProject.Engine

inductive AmValue (D : Type) where
  | str (value : String)
  | int (value : Int)
  | uint (value : Nat)
  | f64 (value : D)
  | bool (value : Bool)
  | map (fields : List (String × AmValue D))
  | list (items : List (AmValue D))

namespace AmValue

variable {D : Type}

/-- `AMmapGet`. -/
def get (v : AmValue D) (key : String) : Option (AmValue D) :=
  match v with
  | .map fields => (fields.find? fun field => field.1 == key).map Prod.snd
  | _ => none

def toStr : AmValue D → Option String
  | .str value => some value
  | _ => none

def toInt : AmValue D → Option Int
  | .int value => some value
  | _ => none

def toBool : AmValue D → Option Bool
  | .bool value => some value
  | _ => none

/-- The text under a key, when there is a text. -/
def getStr (v : AmValue D) (key : String) : Option String := (v.get key).bind toStr

def getInt (v : AmValue D) (key : String) : Option Int := (v.get key).bind toInt

def getBool (v : AmValue D) (key : String) : Option Bool := (v.get key).bind toBool

def toItems : AmValue D → List (AmValue D)
  | .list items => items
  | _ => []

/-- The items of a list under a key, none when there is no list. -/
def getItems (v : AmValue D) (key : String) : List (AmValue D) := ((v.get key).map toItems).getD []

def isMap : AmValue D → Bool
  | .map _ => true
  | _ => false

/-- Append an item to the list under a key. -/
def pushTo (v : AmValue D) (key : String) (item : AmValue D) : AmValue D :=
  match v with
  | .map fields =>
      .map <| fields.map fun field =>
        match field with
        | (k, .list items) => if k == key then (k, .list (items ++ [item])) else (k, .list items)
        | other => other
  | v => v

end AmValue

/-- A field that is written under a condition only. -/
def field {D : Type} (present : Prop) [Decidable present] (key : String) (value : AmValue D) :
    List (String × AmValue D) :=
  if present then [(key, value)] else []

section Lookup

variable {D : Type}

/-- The value under a key among the fields of a map. -/
def lookup (fields : List (String × AmValue D)) (key : String) : Option (AmValue D) :=
  (fields.find? fun field => field.1 == key).map Prod.snd

theorem AmValue.get_map (fields : List (String × AmValue D)) (key : String) :
    (AmValue.map fields).get key = lookup fields key := rfl

@[simp] theorem lookup_nil (key : String) : lookup ([] : List (String × AmValue D)) key = none :=
  rfl

theorem lookup_cons (k key : String) (value : AmValue D) (rest : List (String × AmValue D)) :
    lookup ((k, value) :: rest) key = if k = key then some value else lookup rest key := by
  unfold lookup
  by_cases hk : k = key
  · rw [if_pos hk, List.find?_cons_of_pos (by simpa using hk), Option.map_some]
  · rw [if_neg hk, List.find?_cons_of_neg (by simpa using hk)]

theorem lookup_append (first second : List (String × AmValue D)) (key : String) :
    lookup (first ++ second) key = (lookup first key).or (lookup second key) := by
  unfold lookup
  rw [List.find?_append]
  cases first.find? (fun field => field.1 == key) <;> rfl

theorem lookup_field (present : Prop) [Decidable present] (k key : String) (value : AmValue D) :
    lookup (field present k value) key = if present ∧ k = key then some value else none := by
  unfold field
  by_cases hpresent : present
  · simp [hpresent, lookup_cons]
  · simp [hpresent]

theorem bind_present {α β : Type} (present : Prop) [Decidable present] (a : α) (f : α → Option β) :
    (if present then some a else none).bind f = if present then f a else none := by
  split <;> rfl

theorem map_present {α β : Type} (present : Prop) [Decidable present] (a : α) (f : α → β) :
    (if present then some a else none).map f = if present then some (f a) else none := by
  split <;> rfl

theorem getD_present {α : Type} (present : Prop) [Decidable present] (a default : α) :
    (if present then some a else none).getD default = if present then a else default := by
  split <;> rfl

end Lookup

end DawProject.Engine
