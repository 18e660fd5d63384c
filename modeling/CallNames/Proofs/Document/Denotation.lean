import CallNames.Proofs.Document.Faithful

/-!
# The tree below a handle

A query on an arena follows handles; the same query on a tree goes down the tree itself. To compare
the two, a handle is related to the tree below it.

* `Arena.HasTree a i t`: following the handles below `i` gives the tree `t`;
* `HasTree.exists_node`: **a node has the span and the shape of its tree, and each of its slots
  holds the handle of what the slot of the tree holds**. This is all that later proofs use;
* `ofJson_hasTree`: the root of a loaded document has the tree that the document is.
-/

namespace CallNames

/-! ## 1. Parts of a tree -/

namespace Tree

/-- The form of a tree. -/
def form : Tree → Form Tree
  | .node _ form => form

/-- What a slot holds is smaller than the form. -/
theorem sizeOf_lt_of_mem_slots {c : Tree} {f : Form Tree} (h : some c ∈ f.slots) :
    sizeOf c < sizeOf f := by
  have hlist : ∀ rs : List (Option Tree), some c ∈ rs → sizeOf c < sizeOf rs := by
    intro rs hmem
    have hsize := List.sizeOf_lt_of_mem hmem
    rw [Option.some.sizeOf_spec] at hsize
    omega
  cases f with
  | identifier | this | literal => exact absurd h List.not_mem_nil
  | program | block | declaration | object | array | other =>
    have hsize := hlist _ h
    simp only [Form.slots, Form.program.sizeOf_spec, Form.block.sizeOf_spec,
      Form.declaration.sizeOf_spec, Form.object.sizeOf_spec, Form.array.sizeOf_spec,
      Form.other.sizeOf_spec] at hsize ⊢
    omega
  | call style callee arguments =>
    rcases List.mem_cons.mp h with rfl | hmem
    · simp
      omega
    · have hsize := hlist _ hmem
      simp
      omega
  | function style id params body =>
    rcases List.mem_append.mp h with hmem | hmem
    · rcases List.mem_cons.mp hmem with rfl | hmem
      · simp
        omega
      · have hsize := hlist _ hmem
        simp
        omega
    · rw [← List.mem_singleton.mp hmem]
      simp
      omega
  | expressionStatement | returnStatement =>
    rw [← List.mem_singleton.mp h]
    simp
    omega
  | declarator | member | assignment | property | conditional =>
    simp only [Form.slots, List.mem_cons, List.not_mem_nil, or_false] at h
    rcases h with rfl | rfl | rfl <;> simp <;> omega

/-- **A child is smaller than the tree.** -/
theorem sizeOf_lt_of_mem_children {c t : Tree} (h : c ∈ t.form.children) : sizeOf c < sizeOf t := by
  obtain ⟨span, form⟩ := t
  have hsize := sizeOf_lt_of_mem_slots (Form.mem_children.mp h)
  rw [Tree.node.sizeOf_spec]
  show sizeOf c < 1 + sizeOf span + sizeOf (Tree.node span form).form
  omega

end Tree

/-! ## 2. Handles and trees -/

/-- Of lists that agree slot by slot, the slots that are filled agree one by one. -/
theorem forall₂_filterMap_id {α β : Type} {R : α → β → Prop} {rs : List (Option α)}
    {ts : List (Option β)} (h : List.Forall₂ (Option.Rel R) rs ts) :
    List.Forall₂ R (rs.filterMap id) (ts.filterMap id) := by
  induction h with
  | nil => exact .nil
  | cons hr _ ih =>
    cases hr with
    | none => exact ih
    | some hr => exact .cons hr ih

/-- What is read slot by slot is related slot by slot. -/
theorem forall₂_rel_of_mapM {α β : Type} {f : α → Option β} {rs : List (Option α)}
    {ts : List (Option β)} (h : rs.mapM (Option.mapM f) = some ts) :
    List.Forall₂ (Option.Rel fun x y => f x = some y) rs ts := by
  induction rs generalizing ts with
  | nil =>
    cases h
    exact .nil
  | cons r rs ih =>
    rw [List.mapM_cons] at h
    obtain ⟨t, ht, h⟩ := Option.bind_eq_some_iff.mp h
    obtain ⟨ts', hts, e⟩ := Option.bind_eq_some_iff.mp h
    cases e
    refine .cons ?_ (ih hts)
    cases r with
    | none =>
      cases ht
      exact .none
    | some x =>
      obtain ⟨y, hy, rfl⟩ := Option.map_eq_some_iff.mp ht
      exact .some hy

/-- **A tree has the offsets and the shape of its object**, and its slots hold the trees of what
    the slots of the object hold. -/
theorem Json.exists_slots_of_tree? {v : Json} {t : Tree} (h : v.tree? = some t) :
    ∃ src ts, v.source? = some src ∧ t = .node src.span (src.outline.refill ts) ∧
      List.Forall₂ (Option.Rel fun w u => Json.tree? w = some u) src.outline.slots ts := by
  cases hsrc : v.source? with
  | none =>
    rw [Json.tree?] at h
    split at h
    · cases h
    · rename_i src hsome
      rw [hsrc] at hsome
      cases hsome
  | some src =>
    rw [Json.tree?_of_source hsrc] at h
    obtain ⟨form, hform, rfl⟩ := Option.map_eq_some_iff.mp h
    obtain ⟨ts, hts, rfl⟩ := Option.map_eq_some_iff.mp hform
    exact ⟨src, ts, rfl, rfl, forall₂_rel_of_mapM hts⟩

namespace Arena

theorem form?_of_node? {a : Arena} {i : Nat} {n : Node} (h : a.node? i = some n) :
    a.form? (some i) = some n.form := by
  rw [form?, get?_some, h]
  rfl

/-- **The tree below a handle.** -/
def HasTree (a : Arena) (i : Nat) (t : Tree) : Prop := ∃ depth, a.unfold depth i = some t

/-- **A node has the span and the shape of its tree**, and its slots hold the handles of what the
    slots of the tree hold. -/
theorem HasTree.exists_node {a : Arena} {i : Nat} {t : Tree} (h : a.HasTree i t) :
    ∃ n ts, a.node? i = some n ∧ t = .node n.span (n.form.refill ts) ∧
      List.Forall₂ (Option.Rel a.HasTree) n.form.slots ts := by
  obtain ⟨depth, h⟩ := h
  cases depth with
  | zero => cases h
  | succ depth =>
    obtain ⟨n, f, hn, hf, rfl⟩ := unfold_succ_eq_some_iff.mp h
    obtain ⟨ts, hts, rfl⟩ := Option.map_eq_some_iff.mp hf
    refine ⟨n, ts, hn, rfl, (forall₂_rel_of_mapM hts).imp fun r o hr => ?_⟩
    cases hr with
    | none => exact .none
    | some hu => exact .some ⟨depth, hu⟩

/-- The children of a node are the handles of the children of its tree. -/
theorem HasTree.forall₂_children {a : Arena} {i : Nat} {n : Node} {t : Tree} (h : a.HasTree i t)
    (hn : a.node? i = some n) : List.Forall₂ a.HasTree n.form.children t.form.children := by
  obtain ⟨n', ts, hn', rfl, hts⟩ := h.exists_node
  rw [hn] at hn'
  cases hn'
  show List.Forall₂ a.HasTree n.form.children (n.form.refill ts).children
  rw [Form.children_refill hts.length_eq.symm]
  exact forall₂_filterMap_id hts

end Arena

/-- **The root of a loaded document has the tree that the document is.** -/
theorem ofJson_hasTree {v : Json} {d : Document} (h : (Document.ofJson v).value = .ok d) :
    ∃ t, v.tree? = some t ∧ d.arena.HasTree d.root t := by
  obtain ⟨s, hs, ha⟩ := Document.ofJson_eq_ok_iff.mp h
  obtain ⟨t, htree, hunfold⟩ := (loadNode_stands hs).same
  rw [ha]
  exact ⟨t, htree, s.arena.size, hunfold⟩

end CallNames
