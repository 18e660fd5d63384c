import CallNames.Arena.Basic
import Mathlib.Data.List.Basic

/-!
# What adding a node changes

* `node?_add`: a new node takes the next handle, and of the nodes before it **only the parents of
  its children change**;
* `Arena.Extends`: one arena goes on from another if it holds all its nodes, up to their parents;
* `Arena.slots` lists all slots of all nodes; adding a node adds its slots and changes no other.
-/

namespace CallNames

/-- The same node below another parent. -/
def Node.withParent (n : Node) (p : Nat) : Node := { n with parent := some p }

namespace Arena

/-! ## 1. Nodes after an addition -/

/-- Appends a node and sets no parent. -/
def push (a : Arena) (n : Node) : Arena := ⟨a.nodes.push n⟩

theorem node?_push (a : Arena) (n : Node) (i : Nat) :
    (a.push n).node? i = if i = a.size then some n else a.node? i := by
  unfold push node? size
  exact Array.getElem?_push

theorem node?_foldl_setParent (p : Nat) (cs : List Nat) (a : Arena) (i : Nat) :
    (cs.foldl (fun b c => b.setParent p c) a).node? i =
      if i ∈ cs then (a.node? i).map (·.withParent p) else a.node? i := by
  induction cs generalizing a with
  | nil => simp
  | cons c cs ih =>
    rw [List.foldl_cons, ih, node?_setParent]
    -- a handle may be listed twice: its parent is then set twice, to the same node
    by_cases hc : i = c
    · by_cases hcs : i ∈ cs
      · rw [if_pos hcs, if_pos hc, if_pos (List.mem_cons_of_mem c hcs), Option.map_map]
        rfl
      · rw [if_neg hcs, if_pos hc, if_pos (List.mem_cons.mpr (Or.inl hc))]
        rfl
    · rw [if_neg hc]
      by_cases hcs : i ∈ cs
      · rw [if_pos hcs, if_pos (List.mem_cons_of_mem c hcs)]
      · rw [if_neg hcs, if_neg]
        intro h
        rcases List.mem_cons.mp h with h | h
        · exact hc h
        · exact hcs h

/-- **The nodes after an addition.** -/
theorem node?_add (a : Arena) (n : Node) (i : Nat) :
    (a.add n).2.node? i =
      if i ∈ n.form.children then ((a.push n).node? i).map (·.withParent a.size)
      else (a.push n).node? i :=
  node?_foldl_setParent a.size n.form.children (a.push n) i

/-- A node that is no child of the new one stays as it is. -/
theorem node?_add_of_not_mem {a : Arena} {n : Node} {i : Nat} (hi : i ≠ a.size)
    (hc : i ∉ n.form.children) : (a.add n).2.node? i = a.node? i := by
  rw [node?_add, if_neg hc, node?_push, if_neg hi]

theorem node?_add_old {a : Arena} {n m : Node} {i : Nat} (hm : a.node? i = some m)
    (hc : i ∉ n.form.children) : (a.add n).2.node? i = some m := by
  rw [node?_add_of_not_mem (Nat.ne_of_lt (lt_size_of_node? hm)) hc]
  exact hm

/-- A child of the new node gets it as its parent. -/
theorem node?_add_of_mem {a : Arena} {n : Node} {i : Nat} (hi : i ≠ a.size)
    (hc : i ∈ n.form.children) :
    (a.add n).2.node? i = (a.node? i).map (·.withParent a.size) := by
  rw [node?_add, if_pos hc, node?_push, if_neg hi]

/-- The new node itself, if it is not its own child. -/
theorem node?_add_size {a : Arena} {n : Node} (h : a.size ∉ n.form.children) :
    (a.add n).2.node? a.size = some n := by
  rw [node?_add, if_neg h, node?_push, if_pos rfl]

/-- The new node up to its parent, whatever its children are. -/
theorem exists_node?_add_size (a : Arena) (n : Node) :
    ∃ m, (a.add n).2.node? a.size = some m ∧ m.span = n.span ∧ m.form = n.form := by
  rw [node?_add, node?_push, if_pos rfl]
  split
  · exact ⟨n.withParent a.size, rfl, rfl, rfl⟩
  · exact ⟨n, rfl, rfl, rfl⟩

/-! ## 2. Going on from an arena -/

/-- **One arena goes on from another**: all nodes are still there, up to their parents. -/
def Extends (a b : Arena) : Prop :=
  ∀ i n, a.node? i = some n → ∃ m, b.node? i = some m ∧ m.span = n.span ∧ m.form = n.form

theorem Extends.refl (a : Arena) : a.Extends a := fun _ n h => ⟨n, h, rfl, rfl⟩

theorem Extends.trans {a b c : Arena} (hab : a.Extends b) (hbc : b.Extends c) : a.Extends c := by
  intro i n h
  obtain ⟨m, hm, hspan, hform⟩ := hab i n h
  obtain ⟨k, hk, hspan', hform'⟩ := hbc i m hm
  exact ⟨k, hk, hspan'.trans hspan, hform'.trans hform⟩

theorem Extends.size_le {a b : Arena} (h : a.Extends b) : a.size ≤ b.size := by
  cases hn : a.node? b.size with
  | none => exact node?_eq_none_iff.mp hn
  | some n =>
    obtain ⟨m, hm, _, _⟩ := h b.size n hn
    exact absurd (lt_size_of_node? hm) (Nat.lt_irrefl b.size)

theorem extends_add (a : Arena) (n : Node) : a.Extends (a.add n).2 := by
  intro i m h
  have hi : i ≠ a.size := Nat.ne_of_lt (lt_size_of_node? h)
  by_cases hc : i ∈ n.form.children
  · exact ⟨m.withParent a.size, by rw [node?_add_of_mem hi hc, h]; rfl, rfl, rfl⟩
  · exact ⟨m, node?_add_old h hc, rfl, rfl⟩

/-! ## 3. All slots of an arena -/

/-- The forms of all nodes, in the order of their handles. -/
def forms (a : Arena) : List (Form Nat) := a.nodes.toList.map Node.form

/-- **All slots of all nodes.** -/
def slots (a : Arena) : List Ref := a.forms.flatMap Form.slots

theorem getElem?_forms (a : Arena) (i : Nat) : a.forms[i]? = (a.node? i).map Node.form := by
  simp [forms, node?]

/-- The form of the new node comes behind all others, which do not change. -/
theorem forms_add (a : Arena) (n : Node) : (a.add n).2.forms = a.forms ++ [n.form] := by
  have hpush : (a.push n).forms = a.forms ++ [n.form] := by simp [forms, push]
  rw [← hpush]
  refine List.ext_getElem? fun i => ?_
  rw [getElem?_forms, getElem?_forms, node?_add]
  by_cases hc : i ∈ n.form.children
  · rw [if_pos hc, Option.map_map]
    rfl
  · rw [if_neg hc]

theorem slots_add (a : Arena) (n : Node) : (a.add n).2.slots = a.slots ++ n.form.slots := by
  unfold slots
  rw [forms_add, List.flatMap_append, List.flatMap_singleton]

theorem mem_slots_iff {a : Arena} {r : Ref} :
    r ∈ a.slots ↔ ∃ i n, a.node? i = some n ∧ r ∈ n.form.slots := by
  unfold slots
  rw [List.mem_flatMap]
  constructor
  · intro h
    obtain ⟨f, hf, hr⟩ := h
    obtain ⟨i, hi⟩ := List.mem_iff_getElem?.mp hf
    rw [getElem?_forms, Option.map_eq_some_iff] at hi
    obtain ⟨n, hn, rfl⟩ := hi
    exact ⟨i, n, hn, hr⟩
  · intro h
    obtain ⟨i, n, hn, hr⟩ := h
    refine ⟨n.form, List.mem_iff_getElem?.mpr ⟨i, ?_⟩, hr⟩
    rw [getElem?_forms, hn]
    rfl

end Arena

end CallNames
