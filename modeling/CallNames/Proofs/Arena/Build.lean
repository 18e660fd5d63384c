import CallNames.Proofs.Arena.Add
import Mathlib.Data.List.Induction
import Mathlib.Logic.Relation
import Mathlib.Order.Bounds.Defs

/-!
# Arenas built node by node

An arena can be built of any nodes, in any order: a node may name children that are not there yet,
that have a parent already, that never come, or itself. Each addition overwrites the parents of the
children that it finds.

* `Arena.addAll` adds nodes one after the other to an empty arena;
* `Arena.owners`: the nodes that set the parent of a node. They list it among their children and
  **were not added before it**;
* `Built`: what an arena holds after such additions. A node keeps all but its parent, and **its
  parent is the last of its owners** (`ParentAfter`). One addition keeps that (`Built.add`), so it
  holds after any number of them;
* `addAll_parents`: so without parents set beforehand, a parent comes later than its child, and the
  only circles are nodes that are children of themselves.
-/

namespace CallNames

namespace Arena

/-! ## 1. Owners -/

/-- **Adds nodes one after the other**; the handles that are given out come first. -/
def addAll (ns : List Node) : List Nat × Arena :=
  ns.foldl (fun s n => (s.1 ++ [(s.2.add n).1], (s.2.add n).2)) ([], {})

theorem addAll_concat (ns : List Node) (n : Node) :
    addAll (ns ++ [n]) =
      ((addAll ns).1 ++ [((addAll ns).2.add n).1], ((addAll ns).2.add n).2) := by
  rw [addAll, List.foldl_concat]
  rfl

/-- **The nodes that set the parent of a node**: it is one of their children, and they were not
    added before it. -/
def owners (a : Arena) (i : Nat) : Set Nat := { p | i ≤ p ∧ i ∈ a.children (some p) }

theorem mem_owners {a : Arena} {i p : Nat} : p ∈ a.owners i ↔ i ≤ p ∧ i ∈ a.children (some p) :=
  Iff.rfl

theorem lt_size_of_mem_children {a : Arena} {i p : Nat} (h : i ∈ a.children (some p)) :
    p < a.size := by
  cases hn : a.node? p with
  | none => simp [children, form?, hn] at h
  | some n => exact lt_size_of_node? hn

/-- A new node has its form, and all others keep theirs. -/
theorem form?_add (a : Arena) (n : Node) (p : Nat) :
    (a.add n).2.form? (some p) = if p = a.size then some n.form else a.form? (some p) := by
  have hpush : ((a.push n).node? p).map Node.form =
      if p = a.size then some n.form else a.form? (some p) := by
    rw [node?_push]
    split <;> rfl
  show ((a.add n).2.node? p).map Node.form = _
  rw [← hpush, node?_add]
  split
  · rw [Option.map_map]
    rfl
  · rfl

theorem children_add (a : Arena) (n : Node) (p : Nat) :
    (a.add n).2.children (some p) =
      if p = a.size then n.form.children else a.children (some p) := by
  unfold children
  rw [form?_add]
  by_cases hp : p = a.size <;> simp [hp]

/-- **A new node owns its children, itself included, as far as they are there.** -/
theorem mem_owners_add {a : Arena} {n : Node} {i p : Nat} :
    p ∈ (a.add n).2.owners i ↔ p ∈ a.owners i ∨ (p = a.size ∧ i ≤ p ∧ i ∈ n.form.children) := by
  rw [mem_owners, mem_owners, children_add]
  by_cases hp : p = a.size
  · have hold : i ∉ a.children (some p) := fun h =>
      absurd (lt_size_of_mem_children h) (Nat.not_lt.mpr (Nat.le_of_eq hp.symm))
    rw [if_pos hp]
    constructor
    · rintro ⟨hle, hc⟩
      exact .inr ⟨hp, hle, hc⟩
    · rintro (⟨_, hc⟩ | ⟨_, hle, hc⟩)
      · exact absurd hc hold
      · exact ⟨hle, hc⟩
  · simp [hp]

/-- A node that is yet to come has no owner. -/
theorem not_mem_owners_of_size_le {a : Arena} {i p : Nat} (hi : a.size ≤ i) : p ∉ a.owners i := by
  intro h
  have hp := lt_size_of_mem_children h.2
  have hle := h.1
  omega

/-! ## 2. Parents -/

/-- **The parent that a node has in the end**: the last of its owners, or the parent that it was
    added with if it has no owner. -/
inductive ParentAfter (a : Arena) (i : Nat) (preset : Ref) : Ref → Prop where
  | owned {p : Nat} (h : IsGreatest (a.owners i) p) : ParentAfter a i preset (some p)
  | free (h : ∀ p, p ∉ a.owners i) : ParentAfter a i preset preset

/-- A new node is the last owner of its children. -/
theorem parentAfter_add_of_mem {a : Arena} {n : Node} {i : Nat} (preset : Ref) (hi : i ≤ a.size)
    (hc : i ∈ n.form.children) : ParentAfter (a.add n).2 i preset (some a.size) := by
  refine .owned ⟨mem_owners_add.mpr (.inr ⟨rfl, hi, hc⟩), fun q hq => ?_⟩
  rcases mem_owners_add.mp hq with hq | ⟨rfl, _⟩
  · exact Nat.le_of_lt (lt_size_of_mem_children hq.2)
  · exact Nat.le_refl _

/-- For all other nodes nothing changes. -/
theorem ParentAfter.add_of_not_mem {a : Arena} {n : Node} {i : Nat} {preset r : Ref}
    (h : ParentAfter a i preset r) (hc : i ∉ n.form.children) :
    ParentAfter (a.add n).2 i preset r := by
  have hsame : (a.add n).2.owners i = a.owners i := by
    ext p
    rw [mem_owners_add]
    simp [hc]
  cases h with
  | owned h => exact .owned (hsame ▸ h)
  | free h => exact .free (hsame ▸ h)

/-- **What an arena holds after some additions.** -/
structure Built (ns : List Node) (a : Arena) : Prop where
  size : a.size = ns.length
  /-- A node is what was added, up to its parent. -/
  node : ∀ i n, ns[i]? = some n → ∃ r, a.node? i = some { n with parent := r } ∧
    ParentAfter a i n.parent r

theorem built_empty : Built [] {} where
  size := rfl
  node i n h := by simp at h

/-- The nodes before the new one sets any parent: itself as it is, and all others as they were. -/
theorem Built.push {ns : List Node} {a : Arena} (h : Built ns a) {n m : Node} {i : Nat}
    (hm : (ns ++ [n])[i]? = some m) :
    ∃ r, (a.push n).node? i = some { m with parent := r } ∧ ParentAfter a i m.parent r := by
  rw [node?_push, h.size]
  rcases Nat.lt_or_ge i ns.length with hlt | hge
  · rw [List.getElem?_append_left hlt] at hm
    rw [if_neg (Nat.ne_of_lt hlt)]
    exact h.node i m hm
  · obtain ⟨hi, _⟩ := List.getElem?_eq_some_iff.mp hm
    have hlast : i = ns.length := by simp at hi; omega
    subst hlast
    rw [List.getElem?_concat_length] at hm
    cases hm
    exact ⟨n.parent, if_pos rfl, .free fun p => not_mem_owners_of_size_le (Nat.le_of_eq h.size)⟩

/-- **One more addition**: the parents of the children are overwritten, and nothing else changes. -/
theorem Built.add {ns : List Node} {a : Arena} (h : Built ns a) (n : Node) :
    Built (ns ++ [n]) (a.add n).2 where
  size := by rw [size_add, h.size, List.length_append, List.length_singleton]
  node := by
    intro i m hm
    obtain ⟨r, hr, hparent⟩ := h.push hm
    obtain ⟨hi, _⟩ := List.getElem?_eq_some_iff.mp hm
    rw [node?_add, hr]
    by_cases hc : i ∈ n.form.children
    · have hle : i ≤ a.size := by rw [h.size]; simp at hi; omega
      exact ⟨some a.size, if_pos hc, parentAfter_add_of_mem m.parent hle hc⟩
    · exact ⟨r, if_neg hc, hparent.add_of_not_mem hc⟩

/-- Any additions to an empty arena. -/
theorem built_addAll (ns : List Node) : Built ns (addAll ns).2 := by
  induction ns using List.reverseRecOn with
  | nil => exact built_empty
  | append_singleton ns n ih =>
    rw [addAll_concat]
    exact ih.add n

/-- The handles are given out in order. -/
theorem fst_addAll (ns : List Node) : (addAll ns).1 = List.range ns.length := by
  induction ns using List.reverseRecOn with
  | nil => rfl
  | append_singleton ns n ih =>
    rw [addAll_concat, ih, fst_add, (built_addAll ns).size, List.length_append,
      List.length_singleton, List.range_succ]

/-! ## 3. Circles -/

/-- One node has another as its parent. -/
def HasParent (a : Arena) (i p : Nat) : Prop := a.parent? (some i) = some p

/-- Without parents set beforehand, every parent is the last owner. -/
theorem Built.isGreatest {ns : List Node} {a : Arena} (h : Built ns a)
    (hpreset : ∀ n ∈ ns, n.parent = none) {i p : Nat} (hp : a.HasParent i p) :
    IsGreatest (a.owners i) p := by
  obtain ⟨m, hm, hparent⟩ := Option.bind_eq_some_iff.mp hp
  have hi := lt_size_of_node? hm
  rw [h.size] at hi
  obtain ⟨r, hr, hafter⟩ := h.node i _ (List.getElem?_eq_getElem hi)
  rw [get?_some, hr] at hm
  cases hm
  cases hparent
  rw [hpreset _ (List.getElem_mem hi)] at hafter
  cases hafter with
  | owned hlast => exact hlast

/-- Upward, handles grow or stay. -/
theorem le_of_reflTransGen {a : Arena} (hle : ∀ i p, a.HasParent i p → i ≤ p) {i j : Nat}
    (h : Relation.ReflTransGen a.HasParent i j) : i ≤ j := by
  induction h with
  | refl => exact Nat.le_refl i
  | tail _ hlink ih => exact Nat.le_trans ih (hle _ _ hlink)

/-- So a circle has one node only, which is its own parent. -/
theorem eq_of_circle {a : Arena} (hle : ∀ i p, a.HasParent i p → i ≤ p) {i j : Nat}
    (h : Relation.TransGen a.HasParent i j) (h' : Relation.TransGen a.HasParent j i) :
    i = j ∧ a.HasParent i i := by
  have hij := Nat.le_antisymm (le_of_reflTransGen hle h.to_reflTransGen)
    (le_of_reflTransGen hle h'.to_reflTransGen)
  subst hij
  obtain ⟨p, hp, hrest⟩ := Relation.TransGen.head'_iff.mp h
  have hpi : p = i := Nat.le_antisymm (le_of_reflTransGen hle hrest) (hle i p hp)
  rw [hpi] at hp
  exact ⟨rfl, hp⟩

/-- **The parents after any additions.** The handles are given out in order; a node is what was
    added, and its parent is the last of its owners or else the one that it was added with. If no
    parent is set beforehand, a parent comes behind its child, unless a node is its own child and no
    later node has it as a child; and there are no other circles. -/
theorem addAll_parents (ns : List Node) :
    (addAll ns).1 = List.range ns.length ∧ Built ns (addAll ns).2 ∧
    ((∀ n ∈ ns, n.parent = none) →
      (∀ i p, (addAll ns).2.HasParent i p →
        (i < p ∧ p < ns.length) ∨
        (p = i ∧ i ∈ (addAll ns).2.children (some i) ∧
          ∀ q, i < q → i ∉ (addAll ns).2.children (some q))) ∧
      ∀ i j, Relation.TransGen (addAll ns).2.HasParent i j →
        Relation.TransGen (addAll ns).2.HasParent j i → i = j ∧ (addAll ns).2.HasParent i i) := by
  have hbuilt := built_addAll ns
  refine ⟨fst_addAll ns, hbuilt, fun hpreset => ⟨fun i p hp => ?_, fun i j => ?_⟩⟩
  · have hlast := hbuilt.isGreatest hpreset hp
    rcases Nat.lt_or_eq_of_le hlast.1.1 with hlt | heq
    · exact .inl ⟨hlt, hbuilt.size ▸ lt_size_of_mem_children hlast.1.2⟩
    · subst heq
      refine .inr ⟨rfl, hlast.1.2, fun q hq hc => ?_⟩
      exact absurd (hlast.2 ⟨Nat.le_of_lt hq, hc⟩) (Nat.not_le.mpr hq)
  · exact eq_of_circle fun i p hp => (hbuilt.isGreatest hpreset hp).1.1

/-- Four nodes that name children before they come, twice, in two places, themselves, and one that
    never comes. -/
def tangledNodes : List Node :=
  [{ form := .identifier "a" }, { form := .array [some 0, some 3, some 9] },
    { form := .array [some 0, none, some 2, some 0] }, { form := .identifier "b" }]

/-- The first of them belongs to the last node that names it, and the third to itself. -/
theorem tangledNodes_parents :
    (∀ n ∈ tangledNodes, n.parent = none) ∧
    (addAll tangledNodes).1 = [0, 1, 2, 3] ∧
    (addAll tangledNodes).2.nodes.toList.map Node.parent = [some 2, none, some 2, none] ∧
    IsGreatest ((addAll tangledNodes).2.owners 0) 2 ∧
    (2 ∈ (addAll tangledNodes).2.children (some 2) ∧
      ∀ q, 2 < q → 2 ∉ (addAll tangledNodes).2.children (some q)) := by
  have hpreset : ∀ n ∈ tangledNodes, n.parent = none := by decide
  obtain ⟨hhandles, hbuilt, hlinks⟩ := addAll_parents tangledNodes
  have hself : (addAll tangledNodes).2.HasParent 2 2 := rfl
  rcases (hlinks hpreset).1 2 2 hself with hlater | hown
  · exact absurd hlater.1 (Nat.lt_irrefl 2)
  · exact ⟨hpreset, hhandles, by decide, hbuilt.isGreatest hpreset rfl, hown.2⟩

end Arena

end CallNames
