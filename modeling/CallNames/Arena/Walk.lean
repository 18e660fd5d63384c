import CallNames.Arena.Basic
import CallNames.Largest
import CallNames.Traced

/-!
# Walks through an arena

* `Arena.ancestors` walks from a node up to the root. Parent links may run in a circle in an arena
  that was not built from a tree; **a walk longer than the arena is cut** and reported;
* `Arena.preorder` lists a subtree, parents before children and children in source order. Its
  stack holds, with each node, for how many levels the walk may go on below it: no path without a
  repetition is longer than the arena, so the bound cuts no tree.
-/

namespace CallNames

namespace Arena

/-! ## 1. Upward -/

/-- A handle with its node, if the arena holds one. -/
def lookup? (a : Arena) (r : Ref) : Option (Nat × Node) :=
  r.bind fun i => (a.node? i).map fun n => (i, n)

/-- Goes on upward from `r` for at most `room` nodes; the nodes passed are in `visited`, the last
    one first. -/
def climb (a : Arena) : Nat → Ref → List Nat → Traced (List Nat)
  | 0, r, visited => ⟨visited.reverse, (a.lookup? r).toList.map fun e => .walkCut e.1⟩
  | room + 1, r, visited =>
    match a.lookup? r with
    | none => ⟨visited.reverse, []⟩
    | some (i, n) => a.climb room n.parent (i :: visited)

/-- **The nodes from a node, itself included, up to the root.** -/
def ancestors (a : Arena) (r : Ref) : Traced (List Nat) :=
  a.climb a.size r []

/-- Goes up from `r`, for at most `room` nodes, to the first one for which `f` has an answer. -/
def climbTo {β : Type} (a : Arena) (f : Nat → Node → Option β) : Nat → Ref → Traced (Option β)
  | 0, r => ⟨none, (a.lookup? r).toList.map fun e => .walkCut e.1⟩
  | _ + 1, none => ⟨none, []⟩
  | room + 1, some i =>
    match a.node? i with
    | none => ⟨none, []⟩
    | some n =>
      match f i n with
      | some b => ⟨some b, []⟩
      | none => a.climbTo f room n.parent

/-- **The answer of the nearest node from a node upward**, the node itself included. The walk goes
    no further than that node, so a cut is reported only where there is none. -/
def nearest? {β : Type} (a : Arena) (f : Nat → Node → Option β) (r : Ref) : Traced (Option β) :=
  a.climbTo f a.size r

/-- What `f` says of a handle. -/
def answerAt? {β : Type} (a : Arena) (f : Nat → Node → Option β) (i : Nat) : Option β :=
  (a.node? i).bind (f i)

/-- The nodes that an upward walk lists begin with those passed before. -/
theorem value_climb (a : Arena) (room : Nat) (r : Ref) (visited : List Nat) :
    (a.climb room r visited).value = visited.reverse ++ (a.climb room r []).value := by
  induction room generalizing r visited with
  | zero => simp [climb]
  | succ room ih =>
    simp only [climb]
    cases a.lookup? r with
    | none => simp
    | some e => simp only [ih _ (e.1 :: visited), ih _ [e.1]]; simp

/-- The nearest answer is the first one along the ancestors. -/
theorem value_climbTo {β : Type} (a : Arena) (f : Nat → Node → Option β) (room : Nat) (r : Ref) :
    (a.climbTo f room r).value = (a.climb room r []).value.findSome? (a.answerAt? f) := by
  induction room generalizing r with
  | zero => simp [climbTo, climb]
  | succ room ih =>
    cases r with
    | none => simp [climbTo, climb, lookup?]
    | some i =>
      cases hn : a.node? i with
      | none => simp [climbTo, climb, lookup?, hn]
      | some n =>
        have hlookup : a.lookup? (some i) = some (i, n) := by simp [lookup?, hn]
        have hanswer : a.answerAt? f i = f i n := by simp [answerAt?, hn]
        simp only [climbTo, climb, hn, hlookup, value_climb a room n.parent [i]]
        cases hf : f i n with
        | none => simp [ih, hanswer, hf]
        | some b => simp [hanswer, hf]

theorem value_nearest? {β : Type} (a : Arena) (f : Nat → Node → Option β) (r : Ref) :
    (a.nearest? f r).value = (a.ancestors r).value.findSome? (a.answerAt? f) :=
  value_climbTo a f a.size r

/-! ## 2. Downward -/

/-- The most children that one node has. -/
def width (a : Arena) : Nat :=
  a.nodes.toList.foldr (fun n w => max n.form.children.length w) 0

theorem length_children_le_width {a : Arena} {i : Nat} {n : Node} (h : a.node? i = some n) :
    n.form.children.length ≤ a.width := by
  have hmem : n ∈ a.nodes.toList := by
    rw [node?] at h
    exact Array.mem_toList_iff.mpr (Array.mem_of_getElem? h)
  exact le_foldr_max (f := fun n : Node => n.form.children.length) hmem

/-- A bound for the nodes that a walk lists below one node, with `room` levels to go. -/
def effort (width : Nat) : Nat → Nat
  | 0 => 1
  | room + 1 => width * effort width room + 2

/-- The bound for a whole stack. -/
def stackEffort (width : Nat) (pending : List (Nat × Nat)) : Nat :=
  pending.foldr (fun p n => effort width p.2 + n) 0

theorem effort_pos (width room : Nat) : 0 < effort width room := by
  cases room <;> simp [effort]

theorem stackEffort_cons (w : Nat) (p : Nat × Nat) (rest : List (Nat × Nat)) :
    stackEffort w (p :: rest) = effort w p.2 + stackEffort w rest := rfl

theorem stackEffort_children (w room : Nat) (cs : List Nat) (rest : List (Nat × Nat)) :
    stackEffort w (cs.map (fun c => (c, room)) ++ rest) =
      cs.length * effort w room + stackEffort w rest := by
  induction cs with
  | nil => simp
  | cons c cs ih =>
    rw [List.map_cons, List.cons_append, stackEffort_cons, ih, List.length_cons, Nat.succ_mul]
    show effort w room + _ = _
    omega

/-- Lists what is below the nodes of a stack, each with the levels that the walk may go on for;
    the nodes passed are in `visited`, the last one first. -/
def descend (a : Arena) (pending : List (Nat × Nat)) (visited : List Nat) : List Nat :=
  match pending with
  | [] => visited.reverse
  | (_, 0) :: rest => a.descend rest visited
  | (i, room + 1) :: rest =>
    match _h : a.node? i with
    | none => a.descend rest visited
    | some n => a.descend (n.form.children.map (fun c => (c, room)) ++ rest) (i :: visited)
termination_by stackEffort a.width pending
decreasing_by
  · rw [stackEffort_cons]
    exact Nat.lt_add_of_pos_left (effort_pos _ _)
  · rw [stackEffort_cons]
    exact Nat.lt_add_of_pos_left (effort_pos _ _)
  · rw [stackEffort_cons, stackEffort_children]
    have hw := Nat.mul_le_mul_right (effort a.width room) (length_children_le_width _h)
    simp only [effort]
    omega

/-- **The nodes of a subtree**, parents before children and children in source order. -/
def preorder (a : Arena) (r : Ref) : List Nat :=
  a.descend (r.toList.map fun i => (i, a.size)) []

end Arena

end CallNames
