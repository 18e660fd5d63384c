/-!
# Places in a document

A child node is found in a field of its parent's object, or in an array that such a field holds.
One step leads from a node to a child, so **a path has as many steps as there are nodes around the
place**.
-/

namespace CallNames

/-- The step to a child: the field, and the place in its array if it holds one. -/
structure Step where
  field : String
  index : Option Nat := none
deriving DecidableEq, Repr, Inhabited

/-- A place in a document: the steps from the root, the first one first. -/
abbrev Path := List Step

namespace Step

/-- A step as text: `field` or `field[index]`. -/
def render (s : Step) : String :=
  match s.index with
  | none => s.field
  | some i => s.field ++ "[" ++ Nat.repr i ++ "]"

end Step

namespace Path

/-- A path as text: steps joined by points, and `<root>` for no step at all. -/
def render (p : Path) : String :=
  if p.isEmpty then "<root>" else ".".intercalate (p.map Step.render)

end Path

end CallNames
