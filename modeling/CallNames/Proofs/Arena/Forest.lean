import CallNames.Proofs.Arena.Add
import CallNames.Proofs.Node.Slots
import Mathlib.Data.List.Nodup
import Mathlib.Data.List.Perm.Basic
import Mathlib.Data.List.Range

/-!
# Arenas that are forests

While a document is loaded, its arena holds the trees that have been finished so far and that wait
for their parent.

* `Forest a roots`: the arena `a` consists of trees with the given roots. Links go both ways, every
  child comes before its parent, and **every handle is a root or stands in exactly one slot**;
* `Forest.add`: a new node over the last few roots makes one tree of them.
-/

namespace CallNames

namespace Arena

/-! ## 1. Forests -/

/-- **An arena that consists of trees**, with the roots of all of them. -/
structure Forest (a : Arena) (roots : List Nat) : Prop where
  /-- A root is a node without a parent. -/
  root : ∀ r ∈ roots, ∃ n, a.node? r = some n ∧ n.parent = none
  /-- A child comes before its parent and knows it. -/
  child : ∀ p n c, a.node? p = some n → some c ∈ n.form.slots →
    c < p ∧ ∃ m, a.node? c = some m ∧ m.parent = some p
  /-- Every handle is a root or stands in a slot, and only once. -/
  cover : (a.slots.filterMap id ++ roots).Perm (List.range a.size)

theorem forest_empty : Forest {} [] where
  root _ h := absurd h List.not_mem_nil
  child p n c h := by
    have hp := lt_size_of_node? h
    exact absurd hp (Nat.not_lt_zero p)
  cover := List.Perm.refl []

namespace Forest

variable {a : Arena} {roots : List Nat}

theorem nodup (h : Forest a roots) : (a.slots.filterMap id ++ roots).Nodup :=
  h.cover.nodup_iff.mpr List.nodup_range

/-- A root stands in no slot. -/
theorem root_not_stored (h : Forest a roots) {r p : Nat} {n : Node} (hr : r ∈ roots)
    (hn : a.node? p = some n) : some r ∉ n.form.slots := by
  intro hs
  have hslot : r ∈ a.slots.filterMap id :=
    List.mem_filterMap.mpr ⟨some r, mem_slots_iff.mpr ⟨p, n, hn, hs⟩, rfl⟩
  exact (List.nodup_append.mp h.nodup).2.2 r hslot r hr rfl

/-- A root is a handle of the arena. -/
theorem root_lt (h : Forest a roots) {r : Nat} (hr : r ∈ roots) : r < a.size := by
  obtain ⟨n, hn, _⟩ := h.root r hr
  exact lt_size_of_node? hn

/-! ## 2. A node over some of the roots -/

variable {rest : List Nat} {n : Node}

/-- The new node is not one of its own children. -/
theorem size_not_child (h : Forest a (rest ++ n.form.children)) : a.size ∉ n.form.children := by
  intro hc
  have hlt := h.root_lt (List.mem_append_right rest hc)
  exact Nat.lt_irrefl _ hlt

theorem root_add (h : Forest a (rest ++ n.form.children)) (hn : n.parent = none) :
    ∀ r ∈ rest ++ [a.size], ∃ m, (a.add n).2.node? r = some m ∧ m.parent = none := by
  intro r hr
  rcases List.mem_append.mp hr with hr | hr
  · obtain ⟨m, hm, hp⟩ := h.root r (List.mem_append_left _ hr)
    -- the roots are all different, so this one is not among the children
    have hroots := (List.nodup_append.mp h.nodup).2.1
    have hc : r ∉ n.form.children := fun hc => (List.nodup_append.mp hroots).2.2 r hr r hc rfl
    exact ⟨m, node?_add_old hm hc, hp⟩
  · have e : r = a.size := List.mem_singleton.mp hr
    subst e
    exact ⟨n, node?_add_size h.size_not_child, hn⟩

theorem child_add (h : Forest a (rest ++ n.form.children)) :
    ∀ p m c, (a.add n).2.node? p = some m → some c ∈ m.form.slots →
      c < p ∧ ∃ k, (a.add n).2.node? c = some k ∧ k.parent = some p := by
  intro p m c hm hc
  by_cases hp : p = a.size
  · -- below the new node: its children have been roots
    subst hp
    rw [node?_add_size h.size_not_child] at hm
    have e : n = m := Option.some.inj hm
    subst e
    have hchild : c ∈ n.form.children := Form.mem_children.mpr hc
    have hroot := List.mem_append_right rest hchild
    obtain ⟨k, hk, _⟩ := h.root c hroot
    have hlt := h.root_lt hroot
    refine ⟨hlt, k.withParent a.size, ?_, rfl⟩
    rw [node?_add_of_mem (Nat.ne_of_lt hlt) hchild, hk]
    rfl
  · -- below an older node: its children are no roots
    have hold : ∃ m', a.node? p = some m' ∧ m'.form = m.form := by
      by_cases hpc : p ∈ n.form.children
      · rw [node?_add_of_mem hp hpc, Option.map_eq_some_iff] at hm
        obtain ⟨m', hm', e⟩ := hm
        exact ⟨m', hm', by rw [← e]; rfl⟩
      · rw [node?_add_of_not_mem hp hpc] at hm
        exact ⟨m, hm, rfl⟩
    obtain ⟨m', hm', hform⟩ := hold
    rw [← hform] at hc
    obtain ⟨hlt, k, hk, hparent⟩ := h.child p m' c hm' hc
    have hnew : c ∉ n.form.children := fun hchild =>
      h.root_not_stored (List.mem_append_right rest hchild) hm' hc
    exact ⟨hlt, k, node?_add_old hk hnew, hparent⟩

theorem cover_add (h : Forest a (rest ++ n.form.children)) :
    ((a.add n).2.slots.filterMap id ++ (rest ++ [a.size])).Perm (List.range (a.add n).2.size) := by
  rw [slots_add, List.filterMap_append, size_add, List.range_succ]
  show (a.slots.filterMap id ++ n.form.children ++ (rest ++ [a.size])).Perm _
  rw [← List.append_assoc, List.append_assoc (a.slots.filterMap id)]
  refine List.Perm.append_right [a.size] ?_
  exact (List.Perm.append_left _ List.perm_append_comm).trans h.cover

/-- **A node over some of the roots is a new root in their place.** -/
theorem add (h : Forest a (rest ++ n.form.children)) (hn : n.parent = none) :
    Forest (a.add n).2 (rest ++ [a.size]) where
  root := h.root_add hn
  child := h.child_add
  cover := h.cover_add

/-! ## 3. One tree -/

/-- The last node of an arena is a root: no later node could have it as its child. -/
theorem last_mem_roots (h : Forest a roots) {i : Nat} (hi : i + 1 = a.size) : i ∈ roots := by
  have hrange : i ∈ List.range a.size := List.mem_range.mpr (by omega)
  rcases List.mem_append.mp (h.cover.mem_iff.mpr hrange) with hslot | hroot
  · obtain ⟨r, hr, e⟩ := List.mem_filterMap.mp hslot
    have e' : r = some i := e
    subst e'
    obtain ⟨p, n, hn, hs⟩ := mem_slots_iff.mp hr
    have hlt := (h.child p n i hn hs).1
    have hp := lt_size_of_node? hn
    omega
  · exact hroot

/-- A handle that is no root stands in one slot. -/
theorem count_slots (h : Forest a roots) {i : Nat} (hi : i < a.size) (hr : i ∉ roots) :
    a.slots.count (some i) = 1 := by
  have hcount : (a.slots.filterMap id ++ roots).count i = 1 := by
    rw [h.cover.count_eq]
    exact List.count_eq_one_of_mem List.nodup_range (List.mem_range.mpr hi)
  rw [List.count_append, List.count_eq_zero_of_not_mem hr, Nat.add_zero,
    List.count_filterMap] at hcount
  exact hcount

end Forest

/-- **An arena that is one tree**, with its root. -/
structure IsTree (a : Arena) (root : Nat) : Prop where
  /-- The root is the last node. -/
  last : root + 1 = a.size
  /-- The root has no parent. -/
  top : ∃ n, a.node? root = some n ∧ n.parent = none
  /-- A form is its slots put into a shape without handles: no handle is kept anywhere else. -/
  inSlots : ∀ i n, a.node? i = some n → ∃ shape : Form Unit, n.form = shape.refill n.form.slots
  /-- A child comes before its parent and knows it. -/
  linked : ∀ p n c, a.node? p = some n → some c ∈ n.form.slots →
    c < p ∧ ∃ m, a.node? c = some m ∧ m.parent = some p
  /-- Every handle but the root stands in exactly one slot. -/
  once : ∀ i, i < root → a.slots.count (some i) = 1

/-- A forest with one root is a tree. -/
theorem Forest.isTree {a : Arena} {root : Nat} (h : Forest a [root]) : IsTree a root := by
  have hroot : root ∈ [root] := List.mem_singleton_self root
  have hlt := h.root_lt hroot
  have hlast : root + 1 = a.size := by
    have hmem := h.last_mem_roots (i := a.size - 1) (by omega)
    have e := List.mem_singleton.mp hmem
    omega
  refine ⟨hlast, h.root root hroot, ?_, h.child, ?_⟩
  · intro i n _
    refine ⟨n.form.refill ([] : List (Option Unit)), ?_⟩
    rw [Form.refill_refill, Form.refill_slots]
  · intro i hi
    have hne : i ∉ [root] := fun hm => absurd (List.mem_singleton.mp hm) (Nat.ne_of_lt hi)
    exact h.count_slots (by omega) hne

end Arena

end CallNames
