import CallNames.Number.Binary64

/-!
# JSON values

A document is a JSON value whose objects keep their fields in the order of the text.

* `Number`: an integer is kept apart from a binary64 number, since only integers can be source
  offsets;
* `Json`: the values, with arrays and objects as lists;
* `Json.setField`: **a repeated key keeps its first place and takes its last value**.
-/

namespace CallNames

/-! ## 1. Values -/

/-- A JSON number. -/
inductive Number where
  | int (n : Int)
  | real (x : Binary64)
deriving DecidableEq, Repr, Inhabited

/-- A JSON value. The fields of an object are listed in document order. -/
inductive Json where
  | null
  | bool (b : Bool)
  | num (n : Number)
  | str (s : String)
  | arr (items : List Json)
  | obj (fields : List (String × Json))
deriving Repr, Inhabited

/-- The fields of an object, in document order. -/
abbrev Fields := List (String × Json)

namespace Json

/-- A natural number as a JSON value. -/
def ofNat (n : Nat) : Json := .num (.int n)

/-- An optional text; an absent one is `null`. -/
def ofText? : Option String → Json
  | none => .null
  | some s => .str s

/-! ## 2. Reading a value -/

/-- The text of a string value. -/
def text? : Json → Option String
  | .str s => some s
  | _ => none

/-- The field `key` of an object; `none` for a missing field and for any other value. -/
def field? (key : String) : Json → Option Json
  | .obj fields => fields.lookup key
  | _ => none

/-- A natural number, written as an integer. -/
def nat? : Json → Option Nat
  | .num (.int (.ofNat n)) => some n
  | _ => none

/-- Whether the value is `null`. -/
def isNull : Json → Bool
  | .null => true
  | _ => false

/-! ## 3. Objects -/

/-- Sets a field: in its place if the key is there already, at the end otherwise. -/
def setField (key : String) (value : Json) : Fields → Fields
  | [] => [(key, value)]
  | (k, v) :: rest =>
    if k = key then (key, value) :: rest else (k, v) :: setField key value rest

/-- A new key goes to the end. -/
theorem setField_of_not_mem {key : String} {fields : Fields} (value : Json)
    (h : key ∉ fields.map Prod.fst) : setField key value fields = fields ++ [(key, value)] := by
  induction fields with
  | nil => rfl
  | cons f rest ih =>
    simp only [List.map_cons, List.mem_cons, not_or] at h
    simp [setField, Ne.symm h.1, ih h.2]

end Json

end CallNames
