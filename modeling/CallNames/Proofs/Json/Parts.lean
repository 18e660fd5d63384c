import CallNames.Json.Writer
import Mathlib.Data.List.Basic

/-!
# Values and their parts

* `Json.induction`: what holds of a container if it holds of all that it contains holds of every
  value;
* a compact text is put together from the texts of the parts, the first one and then **each one
  behind a comma** (`joinComma_cons`).
-/

namespace CallNames

namespace Json

/-- **The induction over values**: of a container, the statement is known for all that it
    contains. -/
theorem induction {P : Json → Prop} (null : P .null) (bool : ∀ b, P (.bool b))
    (num : ∀ n, P (.num n)) (str : ∀ s, P (.str s))
    (arr : ∀ items, (∀ v ∈ items, P v) → P (.arr items))
    (obj : ∀ fields, (∀ f ∈ fields, P f.2) → P (.obj fields)) (v : Json) : P v :=
  match v with
  | .null => null
  | .bool b => bool b
  | .num n => num n
  | .str s => str s
  | .arr items => arr items fun w _ => induction null bool num str arr obj w
  | .obj fields => obj fields fun f _ => induction null bool num str arr obj f.2
termination_by sizeOf v
decreasing_by
  · rename_i hw
    have hsize := List.sizeOf_lt_of_mem hw
    rw [Json.arr.sizeOf_spec]
    omega
  · rename_i hf
    have hsize := List.sizeOf_lt_of_mem hf
    obtain ⟨key, w⟩ := f
    rw [Prod.mk.sizeOf_spec] at hsize
    rw [Json.obj.sizeOf_spec]
    show sizeOf w < _
    omega

/-- The text of one field of an object. -/
def fieldText (field : String × Json) : List Char :=
  Quoted.encode field.1 ++ ':' :: compact field.2

theorem compactItems_eq_map (items : List Json) : compactItems items = items.map compact := by
  induction items with
  | nil => rfl
  | cons v rest ih => rw [compactItems, ih, List.map_cons]

theorem compactFields_eq_map (fields : Fields) : compactFields fields = fields.map fieldText := by
  induction fields with
  | nil => rfl
  | cons f rest ih => rw [compactFields, ih, List.map_cons, fieldText]

theorem joinComma_cons (part : List Char) (parts : List (List Char)) :
    joinComma (part :: parts) = part ++ parts.flatMap (',' :: ·) := by
  unfold joinComma
  induction parts generalizing part with
  | nil => rw [List.intercalate_singleton, List.flatMap_nil, List.append_nil]
  | cons next parts ih =>
    rw [List.intercalate_cons_cons, ih, List.flatMap_cons, List.append_assoc]
    rfl

end Json

end CallNames
