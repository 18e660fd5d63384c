import CallNames.Arena.Walk

/-!
# The name of the enclosing function

The nearest function around a node is named by its own name, or else by what it is directly
assigned to: the variable that it initializes or the left side of an assignment. A function in any
other place has no name, which is reported.
-/

namespace CallNames

namespace Arena

/-- A function with its own name. -/
def functionAt? (i : Nat) (n : Node) : Option (Nat × Ref) :=
  match n.form with
  | .function _ id _ _ => some (i, id)
  | _ => none

/-- The node that a function without a name of its own is named by. -/
def assignmentTarget (a : Arena) (function : Nat) : Traced Ref :=
  match a.form? (a.parent? (some function)) with
  | some (.declarator id _) => ⟨id, []⟩
  | some (.assignment _ left _) => ⟨left, []⟩
  | some form => ⟨none, [.noTarget function form.typeName]⟩
  | none => ⟨none, []⟩

/-- **The node that names the nearest function around a node**, the node itself included. -/
def enclosingName (a : Arena) (r : Ref) : Traced Ref := do
  match ← a.nearest? functionAt? r with
  | none => pure none
  | some (_, some id) => pure (some id)
  | some (function, none) => a.assignmentTarget function

end Arena

end CallNames
