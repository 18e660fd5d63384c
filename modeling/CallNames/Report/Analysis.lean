import CallNames.Name.Enclosing
import CallNames.Name.Operand
import CallNames.Name.Qualified
import CallNames.Report.Basic

/-!
# The calls of a tree

Every call and construction below a root is reported, in document order: parents before children
and children in source order.

* a call is named as a whole, since naming looks through calls; a construction is named by its
  callee;
* an enclosing function whose name is empty counts as none.
-/

namespace CallNames

namespace Arena

/-- The qualified name of the function around a node, if it has one. -/
def enclosingLabel (a : Arena) (r : Ref) : Traced (Option String) := do
  match ← a.enclosingName r with
  | none => pure none
  | some named =>
    let name ← a.qualifiedName (some named)
    pure (if name.isEmpty then none else some name)

/-- The report of an argument of a call. -/
def argumentReport (a : Arena) (call argument : Nat) : Traced ArgumentReport := do
  let name ← a.nodeName (some argument)
  pure
    { name := name
      typeName := (a.typeName? (some argument)).getD ""
      operand := a.isOperand (some argument) (some call) }

/-- What a call is named by. -/
def namedBy (call : Nat) (callee : Ref) : CallStyle → Ref
  | .call => some call
  | .construct => callee

/-- The report of a node, if it is a call or a construction. -/
def callReport? (a : Arena) (i : Nat) : Option (Traced CallReport) :=
  match a.node? i with
  | some ⟨span, _, .call style callee arguments⟩ => some do
    let named := namedBy i callee style
    let enclosing ← a.enclosingLabel (some i)
    let arguments ← Traced.all ((arguments.filterMap id).map (a.argumentReport i))
    let fullName ← a.qualifiedName named
    let shortName ← a.shortName named
    pure
      { style := style
        span := span
        fullName := fullName
        shortName := shortName
        enclosing := enclosing
        arguments := arguments }
  | _ => none

end Arena

namespace FileReport

/-- **The report of the calls below a root.** -/
def ofTree (file : String) (a : Arena) (root : Ref) : Traced FileReport := do
  let calls ← Traced.all ((a.preorder root).filterMap a.callReport?)
  ⟨⟨file, calls⟩, [.analyzed file calls.length]⟩

end FileReport

end CallNames
