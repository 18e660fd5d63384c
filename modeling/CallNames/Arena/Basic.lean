import CallNames.Node.Form
import CallNames.Node.Ref

/-!
# Arenas of nodes

An arena holds the nodes of a tree one after the other, and a node is known by its place. A node
stores its children as handles; its parent is set when the parent is added.

* `Arena.add` appends a node and then **makes it the parent of each of its children that the arena
  holds**, whatever their parent was before;
* `Arena.get?` and the queries after it answer `none` for an absent or unknown node.
-/

namespace CallNames

/-! ## 1. Nodes -/

/-- A node of an arena. -/
structure Node where
  span : Span := {}
  parent : Ref := none
  form : Form Nat
deriving DecidableEq, Repr, Inhabited

/-- An arena. -/
structure Arena where
  nodes : Array Node := #[]
deriving DecidableEq, Repr, Inhabited

namespace Arena

/-! ## 2. Queries -/

/-- The number of nodes. -/
def size (a : Arena) : Nat := a.nodes.size

/-- The node with a handle. -/
def node? (a : Arena) (i : Nat) : Option Node := a.nodes[i]?

/-- The node that a reference leads to. -/
def get? (a : Arena) (r : Ref) : Option Node := r.bind a.node?

/-- The form of the node that a reference leads to. -/
def form? (a : Arena) (r : Ref) : Option (Form Nat) := (a.get? r).map Node.form

/-- The type name of a node. -/
def typeName? (a : Arena) (r : Ref) : Option String := (a.form? r).map Form.typeName

/-- The name of a node that is an identifier. -/
def identifierName? (a : Arena) (r : Ref) : Option String := (a.form? r).bind Form.identifierName?

/-- The parent that a node stores. -/
def parent? (a : Arena) (r : Ref) : Ref := (a.get? r).bind Node.parent

/-- The children of a node, in source order. -/
def children (a : Arena) (r : Ref) : List Nat :=
  match a.form? r with
  | some form => form.children
  | none => []

@[simp] theorem get?_none (a : Arena) : a.get? none = none := rfl

@[simp] theorem get?_some (a : Arena) (i : Nat) : a.get? (some i) = a.node? i := rfl

theorem node?_eq_none_iff {a : Arena} {i : Nat} : a.node? i = none ↔ a.size ≤ i := by
  simp [node?, size]

theorem lt_size_of_node? {a : Arena} {i : Nat} {n : Node} (h : a.node? i = some n) :
    i < a.size := by
  rw [node?, Array.getElem?_eq_some_iff] at h
  exact h.1

/-! ## 3. Building -/

/-- Sets the parent of a node; an unknown handle changes nothing. -/
def setParent (a : Arena) (parent child : Nat) : Arena :=
  ⟨a.nodes.modify child fun n => { n with parent := some parent }⟩

/-- **Appends a node and sets the parent of its children**, itself included if it is one of them.
    The handle of the new node comes first. -/
def add (a : Arena) (n : Node) : Nat × Arena :=
  let i := a.size
  (i, n.form.children.foldl (fun b c => b.setParent i c) ⟨a.nodes.push n⟩)

@[simp] theorem size_setParent (a : Arena) (p c : Nat) : (a.setParent p c).size = a.size := by
  simp [setParent, size]

/-- Setting a parent changes the parent of that node and nothing else. -/
theorem node?_setParent (a : Arena) (p c i : Nat) :
    (a.setParent p c).node? i =
      if i = c then (a.node? i).map fun n => { n with parent := some p } else a.node? i := by
  by_cases h : i = c <;> simp [setParent, node?, Array.getElem?_modify, h, Ne.symm]

theorem size_foldl_setParent (p : Nat) (cs : List Nat) (a : Arena) :
    (cs.foldl (fun b c => b.setParent p c) a).size = a.size := by
  induction cs generalizing a with
  | nil => rfl
  | cons c cs ih => rw [List.foldl_cons, ih, size_setParent]

@[simp] theorem fst_add (a : Arena) (n : Node) : (a.add n).1 = a.size := rfl

@[simp] theorem size_add (a : Arena) (n : Node) : (a.add n).2.size = a.size + 1 := by
  rw [add, size_foldl_setParent]
  simp [size]

end Arena

end CallNames
