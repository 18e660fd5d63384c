import CallNames.Arena.Basic
import CallNames.Traced

/-!
# The identifier a node names

* `Arena.callee`: a call stands for what is called, and every other node for itself;
* `Arena.identifier`: a call is replaced by its callee, then a member access **by one of its two
  parts, once**: `a.b` names `b`, and `a[b]` names `a`, since an index is no name. What is reached
  must be an identifier;
* `Arena.nodeName`: the name of that identifier, and `this` for the node `this`.
-/

namespace CallNames

namespace Arena

/-- What a call calls; any other node is left as it is. -/
def callee (a : Arena) (r : Ref) : Ref :=
  match a.form? r with
  | some (.call .call callee _) => callee
  | _ => r

/-- The part of a member access that names it; any other node is left as it is. -/
def namingPart (a : Arena) (r : Ref) : Ref :=
  match a.form? r with
  | some (.member target key computed) => if computed then target else key
  | _ => r

/-- **The identifier that a node names most directly**; a node without one is reported. -/
def identifier (a : Arena) (r : Ref) : Traced Ref :=
  let reached := a.namingPart (a.callee r)
  match a.form? reached with
  | some (.identifier _) => ⟨reached, []⟩
  | form => ⟨none, [.noIdentifier r (form.map Form.typeName)]⟩

/-- The identifier that a node names is the naming part of what it stands for, if that is one. -/
theorem value_identifier (a : Arena) (r : Ref) :
    (a.identifier r).value =
      if (a.identifierName? (a.namingPart (a.callee r))).isSome then a.namingPart (a.callee r)
      else none := by
  unfold identifier identifierName?
  dsimp only
  generalize a.namingPart (a.callee r) = part
  cases a.form? part with
  | none => rfl
  | some form => cases form <;> rfl

/-- The name of that identifier is the name of the part, if it has one. -/
theorem identifierName?_value_identifier (a : Arena) (r : Ref) :
    a.identifierName? (a.identifier r).value = a.identifierName? (a.namingPart (a.callee r)) := by
  rw [value_identifier]
  split
  · rfl
  · rename_i h
    exact (Option.not_isSome_iff_eq_none.mp h).symm

/-- The name of the identifier that a node names; empty if there is none. -/
def nodeName (a : Arena) (r : Ref) : Traced String :=
  match a.form? r with
  | some .this => ⟨"this", []⟩
  | _ => do
    let named ← a.identifier r
    pure ((a.identifierName? named).getD "")

end Arena

end CallNames
