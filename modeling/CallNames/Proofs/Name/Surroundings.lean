import CallNames.Name.Enclosing
import CallNames.Proofs.Arena.Ancestry
import CallNames.Proofs.Document.Denotation

/-!
# What lies around a node

The function around a node is searched upward, along the parents. On the way down a tree the same
can be handed from parent to child.

* `Surroundings`: what names the nearest function around a place, and what a function in this place
  is named by if it has no name of its own. `Tree.inner` hands them on to the children of a tree;
* `value_enclosingName`: **one step of the upward search**. In a tree no walk is cut, so that the
  search from a node is that from its parent, unless the node itself is a function;
* `Surrounds.inner`: so what is handed down is what the search finds.
-/

namespace CallNames

/-! ## 1. Downward -/

/-- What a place in a tree knows of the nodes around it. -/
structure Surroundings where
  /-- What names the nearest function around the place. -/
  function : Option Tree := none
  /-- What a function in this place is named by if it has no name of its own. -/
  target : Option Tree := none

/-- **The surroundings of the children of a tree.** -/
def Tree.inner (s : Surroundings) : Tree → Surroundings
  | .node _ (.function _ id _ _) => ⟨id.or s.target, none⟩
  | .node _ (.declarator id _) => ⟨s.function, id⟩
  | .node _ (.assignment _ left _) => ⟨s.function, left⟩
  | _ => ⟨s.function, none⟩

/-! ## 2. Upward -/

namespace Arena

variable {a : Arena} {root : Nat}

/-- What a function without a name is named by, if it is a child of the node. -/
def targetBelow (a : Arena) (r : Ref) : Ref :=
  match a.form? r with
  | some (.declarator id _) => id
  | some (.assignment _ left _) => left
  | _ => none

theorem value_assignmentTarget {i : Nat} {n : Node} (hn : a.node? i = some n) :
    (a.assignmentTarget i).value = a.targetBelow n.parent := by
  unfold assignmentTarget targetBelow
  rw [parent?_of_node? hn]
  cases a.form? n.parent with
  | none => rfl
  | some form => cases form <;> rfl

/-- In a tree the nearest answer is that of the node itself, or else the nearest one from its
    parent on. -/
theorem IsTree.value_nearest? (h : a.IsTree root) {β : Type} (f : Nat → Node → Option β) {i : Nat}
    {n : Node} (hn : a.node? i = some n) :
    (a.nearest? f (some i)).value = (f i n).or (a.nearest? f n.parent).value := by
  obtain ⟨l, hl, hlength⟩ := h.exists_climbs hn
  cases hl with
  | stop hnone =>
    rw [get?_some, hn] at hnone
    cases hnone
  | @node _ n' l hn' rest =>
    rw [hn] at hn'
    cases hn'
    rw [List.length_cons] at hlength
    have hself := (Climbs.node hn rest).ancestors_eq (by rw [List.length_cons]; omega)
    have hparent := rest.ancestors_eq (by omega)
    have hanswer : a.answerAt? f i = f i n := by rw [answerAt?, hn]; rfl
    rw [Arena.value_nearest?, Arena.value_nearest?, hself, hparent, List.findSome?_cons, hanswer]
    cases f i n <;> rfl

/-- **One step of the search for the enclosing function**: a function is named by its own name or
    by its parent, and for any other node the search goes on from its parent. -/
theorem IsTree.value_enclosingName (h : a.IsTree root) {i : Nat} {n : Node}
    (hn : a.node? i = some n) :
    (a.enclosingName (some i)).value =
      match n.form with
      | .function _ id _ _ => id.or (a.targetBelow n.parent)
      | _ => (a.enclosingName n.parent).value := by
  have hnearest := h.value_nearest? functionAt? hn
  have htarget := value_assignmentTarget hn
  unfold enclosingName
  rw [Traced.value_bind, Traced.value_bind, hnearest]
  unfold functionAt?
  cases hf : n.form with
  | function style id params body =>
    cases id with
    | none => exact htarget
    | some => rfl
  | _ => rfl

/-- **What the upward search finds around a place**, for the children of a node. -/
structure Surrounds (a : Arena) (r : Ref) (s : Surroundings) : Prop where
  function : Option.Rel a.HasTree (a.enclosingName r).value s.function
  target : Option.Rel a.HasTree (a.targetBelow r) s.target

/-- From no node the search finds nothing. -/
theorem value_enclosingName_none (a : Arena) : (a.enclosingName none).value = none := by
  unfold enclosingName nearest?
  cases a.size <;> rfl

/-- Above the root there is nothing. -/
theorem surrounds_none (a : Arena) : a.Surrounds none {} := by
  refine ⟨?_, .none⟩
  rw [value_enclosingName_none]
  exact .none

/-- The function that is handed down to the children of a node is the one that the search finds from
    the node on. -/
theorem rel_enclosingName (htree : a.IsTree root) {i : Nat} {n : Node} {t : Tree} {s : Surroundings}
    (h : a.Surrounds n.parent s) (hn : a.node? i = some n) (ht : a.HasTree i t) :
    Option.Rel a.HasTree (a.enclosingName (some i)).value (t.inner s).function := by
  obtain ⟨n', ts, hn', rfl, hts⟩ := ht.exists_node
  rw [hn] at hn'
  cases hn'
  rw [htree.value_enclosingName hn]
  cases hf : n.form with
  | function style id params body =>
    rw [hf] at hts
    obtain _ | ⟨hid, _⟩ := hts
    cases hid with
    | none => exact h.target
    | some hid => exact .some hid
  | _ => exact h.function

/-- The target that is handed down to the children of a node is the one that they find there. -/
theorem rel_targetBelow {i : Nat} {t : Tree} (s : Surroundings) (ht : a.HasTree i t) :
    Option.Rel a.HasTree (a.targetBelow (some i)) (t.inner s).target := by
  obtain ⟨n, ts, hn, rfl, hts⟩ := ht.exists_node
  rw [targetBelow, form?_of_node? hn]
  cases hf : n.form with
  | declarator id init =>
    rw [hf] at hts
    obtain _ | ⟨hid, _⟩ := hts
    exact hid
  | assignment operator left right =>
    rw [hf] at hts
    obtain _ | ⟨hleft, _⟩ := hts
    exact hleft
  | _ => exact .none

/-- **What is handed down to the children of a node is what they find around them.** -/
theorem Surrounds.inner (htree : a.IsTree root) {i : Nat} {n : Node} {t : Tree} {s : Surroundings}
    (h : a.Surrounds n.parent s) (hn : a.node? i = some n) (ht : a.HasTree i t) :
    a.Surrounds (some i) (t.inner s) where
  function := rel_enclosingName htree h hn ht
  target := rel_targetBelow s ht

end Arena

end CallNames
