import CallNames.Proofs.Document.Denotation
import CallNames.Proofs.Document.Refusal
import CallNames.Proofs.Document.Walks

/-!
# Where nodes come from

Every node of a loaded document was read from one object of the document.

* `Json.nodes` lists the values of a document that stand where nodes stand, each before those in
  its fields, without any arena;
* `Arena.Holds a v i`: the tree below the handle `i` is the one that the value `v` is. `exists_node`
  says what this means for one node: its offsets, its shape and **each of its slots come from the
  object**;
* `forall₂_nodes`: the downward walk passes the nodes in the order in which `Json.nodes` lists what
  they come from.
-/

namespace CallNames

/-! ## 1. The nodes of a value -/

/-- A child of an object is smaller than the value. -/
theorem Json.sizeOf_lt_of_mem_children {v w : Json} {src : Source} (hv : v.source? = some src)
    (hw : w ∈ src.outline.children) : sizeOf w < sizeOf v := by
  have hsize := Source.sizeOf_lt_of_mem_outline (Form.mem_children.mp hw)
  rw [(Json.source?_eq_some_iff.mp hv).1, Json.obj.sizeOf_spec]
  omega

/-- **The values that stand where nodes stand**, each before those in its fields. -/
def Json.nodes (v : Json) : List Json :=
  match _h : v.source? with
  | none => [v]
  | some src => v :: src.outline.children.attach.flatMap fun w => w.1.nodes
termination_by sizeOf v
decreasing_by exact sizeOf_lt_of_mem_children _h w.2

theorem Json.nodes_of_source {v : Json} {src : Source} (h : v.source? = some src) :
    v.nodes = v :: src.outline.children.flatMap Json.nodes := by
  rw [Json.nodes]
  split
  · rename_i hnone
    rw [h] at hnone
    cases hnone
  · rename_i src' hsome
    rw [h] at hsome
    cases hsome
    rw [List.flatMap_subtype (g := Json.nodes) (fun _ _ => rfl), List.unattach_attach]

/-- The outline of an object has the type name of the object. -/
theorem Source.typeName_outline (src : Source) : src.outline.typeName = src.typeName := by
  by_cases hk : src.kind = .other
  · rw [outline_of_other hk]
    rfl
  · have hname : src.kind.name = src.typeName := Kind.name_ofName hk
    rw [← hname]
    unfold outline
    rw [kindNamed_eq]
    cases hkind : src.kind with
    | other => exact absurd hkind hk
    | _ => rfl

theorem Source.kind_outline (src : Source) : src.outline.kind = src.kind := by
  unfold outline
  rw [kindNamed_eq]
  cases src.kind <;> rfl

theorem Form.kind_refill {α β : Type} (f : Form α) (rs : List (Option β)) :
    (f.refill rs).kind = f.kind := by
  cases f <;> rfl

theorem Form.typeName_refill {α β : Type} (f : Form α) (rs : List (Option β)) :
    (f.refill rs).typeName = f.typeName := by
  cases f <;> rfl

/-- A child of a valid node is valid one level below. -/
theorem ValidAt.child {level : Nat} {v w : Json} {src : Source} (h : ValidAt level v)
    (hv : v.source? = some src) (hw : w ∈ src.outline.children) : ValidAt (level + 1) w := by
  have hadmits := (admits_demands_iff_conforms hv).mpr (validAt_iff.mp h).2
  have hslot : some w ∈ src.demands.map Demand.value? := by
    rw [Source.value_demands hadmits]
    exact Form.mem_children.mp hw
  obtain ⟨d, hd, hvalue⟩ := List.mem_map.mp hslot
  have hmet := hadmits d hd
  cases d with
  | child step w' =>
    cases hvalue
    exact hmet
  | _ => cases hvalue

/-- **All nodes of a valid value are valid**, each at its own level. -/
theorem ValidAt.nodes {level : Nat} {v : Json} (h : ValidAt level v) :
    ∀ w ∈ v.nodes, ∃ l, ValidAt l w := by
  induction hk : sizeOf v using Nat.strongRecOn generalizing v level with
  | ind k ih =>
    intro w hw
    obtain ⟨_, name, fields, htyped, _⟩ := validAt_iff.mp h
    have hsrc : v.source? = some ⟨name, fields⟩ := Json.source?_eq_some_iff.mpr htyped
    rw [Json.nodes_of_source hsrc] at hw
    rcases List.mem_cons.mp hw with rfl | hw
    · exact ⟨level, h⟩
    · obtain ⟨c, hc, hwc⟩ := List.mem_flatMap.mp hw
      have hlt := Json.sizeOf_lt_of_mem_children hsrc hc
      exact ih (sizeOf c) (by omega) (h.child hsrc hc) rfl w hwc

/-! ## 2. Handles and values -/

theorem exists_rel_of_mem {α β : Type} {R : α → β → Prop} {xs : List α} {ys : List β}
    (h : List.Forall₂ R xs ys) {y : β} (hy : y ∈ ys) : ∃ x, R x y := by
  obtain ⟨k, hk, rfl⟩ := List.getElem_of_mem hy
  exact ⟨_, h.get (h.length_eq ▸ hk) hk⟩

namespace Arena

/-- **A handle holds what a value is**: the tree below it is the tree of the value. -/
def Holds (a : Arena) (v : Json) (i : Nat) : Prop := ∃ t, v.tree? = some t ∧ a.HasTree i t

variable {a : Arena} {v : Json} {i root : Nat}

/-- Slots with the same trees hold the same values. -/
theorem forall₂_holds {os : List (Option Json)} {rs : List Ref} {ts : List (Option Tree)}
    (hos : List.Forall₂ (Option.Rel fun w t => Json.tree? w = some t) os ts)
    (hrs : List.Forall₂ (Option.Rel a.HasTree) rs ts) :
    List.Forall₂ (Option.Rel a.Holds) os rs := by
  induction hos generalizing rs with
  | nil =>
    cases hrs
    exact .nil
  | cons ho _ ih =>
    obtain _ | ⟨hr, hrs⟩ := hrs
    refine .cons ?_ (ih hrs)
    cases ho with
    | none =>
      cases hr
      exact .none
    | some hu =>
      cases hr with
      | some ht => exact .some ⟨_, hu, ht⟩

/-- **What a node has from its object**: its offsets, its shape, and what its slots hold. -/
theorem Holds.exists_node (h : a.Holds v i) :
    ∃ src n, v.source? = some src ∧ a.node? i = some n ∧ n.span = src.span ∧
      n.form = src.outline.refill n.form.slots ∧
      List.Forall₂ (Option.Rel a.Holds) src.outline.slots n.form.slots := by
  obtain ⟨t, hv, ht⟩ := h
  obtain ⟨n, ts, hn, rfl, hts⟩ := ht.exists_node
  obtain ⟨src, us, hsrc, e, hvalues⟩ := Json.exists_slots_of_tree? hv
  obtain ⟨hspan, hform⟩ := Tree.node.inj e
  -- both refills have the same contents, since each fits into its shape
  have hcontents : us = ts := by
    rw [← Form.slots_refill hvalues.length_eq.symm, ← hform, Form.slots_refill hts.length_eq.symm]
  have hshape : n.form = src.outline.refill n.form.slots := by
    calc n.form = (n.form.refill ts).refill n.form.slots := by
          rw [Form.refill_refill, Form.refill_slots]
      _ = src.outline.refill n.form.slots := by rw [hform, Form.refill_refill]
  rw [hcontents] at hvalues
  exact ⟨src, n, hsrc, hn, hspan, hshape, forall₂_holds hvalues hts⟩

/-- A node has the type name of its object. -/
theorem Holds.typeName (h : a.Holds v i) :
    ∃ name, v.field? "type" = some (.str name) ∧ a.typeName? (some i) = some name := by
  obtain ⟨src, n, hsrc, hn, _, hshape, _⟩ := h.exists_node
  obtain ⟨rfl, htype⟩ := Json.source?_eq_some_iff.mp hsrc
  refine ⟨src.typeName, htype, ?_⟩
  rw [typeName?, form?_of_node? hn, hshape, Option.map_some, Form.typeName_refill,
    Source.typeName_outline]

/-- **The walk passes the nodes in the order of the values that they come from.** -/
theorem Holds.forall₂_nodes (htree : a.IsTree root) (h : a.Holds v i) :
    List.Forall₂ a.Holds v.nodes (a.parentsFirst i) := by
  induction i using Nat.strongRecOn generalizing v with
  | ind i ih =>
    obtain ⟨src, n, hsrc, hn, _, _, hslots⟩ := h.exists_node
    have hchildren : List.Forall₂ a.Holds src.outline.children n.form.children :=
      forall₂_filterMap_id hslots
    have hlt : ∀ c ∈ n.form.children, c < i := by
      intro c hc
      obtain ⟨m, hm, _⟩ := htree.parent_of_child hn hc
      exact htree.bottomUp i n c hn hc (lt_size_of_node? hm)
    rw [Json.nodes_of_source hsrc, parentsFirst_of_bottomUp htree.bottomUp hn]
    refine .cons h ?_
    generalize src.outline.children = ws at hchildren
    generalize n.form.children = cs at hchildren hlt
    induction hchildren with
    | nil => exact .nil
    | @cons w c ws cs hw _ ihs =>
      rw [List.flatMap_cons, List.flatMap_cons]
      have hfirst := ih c (hlt c List.mem_cons_self) hw
      have hrest := ihs fun c' hc' => hlt c' (List.mem_cons_of_mem c hc')
      exact List.rel_append hfirst hrest

/-- A node that the walk passes comes from some value. -/
theorem Holds.exists_of_mem (htree : a.IsTree root) (h : a.Holds v i) {j : Nat}
    (hj : j ∈ a.parentsFirst i) : ∃ w, a.Holds w j :=
  exists_rel_of_mem (h.forall₂_nodes htree) hj

end Arena

/-! ## 3. Documents -/

/-- What is loaded as a document is a node of level 1. -/
theorem ofJson_validAt {v : Json} {d : Document} (h : (Document.ofJson v).value = .ok d) :
    ValidAt 1 v := by
  obtain ⟨t, ht, _⟩ := Document.ofJson_eq_ok_iff.mp h
  exact (loadNode_isOk_iff (Nat.le_refl nodeLimit) v {}).mp ⟨d.root, t, ht⟩

/-- **The root of a loaded document holds the document.** -/
theorem ofJson_holds {v : Json} {d : Document} (h : (Document.ofJson v).value = .ok d) :
    d.arena.Holds v d.root :=
  ofJson_hasTree h

/-- Every node of a loaded document is complete. -/
theorem ofJson_complete {v : Json} {d : Document} (h : (Document.ofJson v).value = .ok d) {i : Nat}
    {n : Node} (hn : d.arena.node? i = some n) : n.form.Complete := by
  obtain ⟨t, ht, ha⟩ := Document.ofJson_eq_ok_iff.mp h
  have hforms := loadNode_complete ht fun _ hf => absurd hf List.not_mem_nil
  refine hforms n.form (List.mem_iff_getElem?.mpr ⟨i, ?_⟩)
  rw [← ha, Arena.getElem?_forms, hn]
  rfl

end CallNames
