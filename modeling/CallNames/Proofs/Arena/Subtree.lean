import CallNames.Arena.Walk
import CallNames.Proofs.Arena.Add
import Mathlib.Data.List.Flatten
import Mathlib.Data.List.Perm.Basic

/-!
# Listing a subtree

The downward walk keeps all that is still to be visited on one stack. What it lists is said here by
plain recursion over the children.

* `Arena.gather` lists a subtree by recursion; where a node stands among what its children list is
  a parameter, so that `parentsFirst` and `childrenFirst` are two cases of one definition;
* `BottomUp`: every child that the arena holds comes before its parent. **In such an arena the
  recursion is the plain one** (`gather_of_bottomUp`), and the stack lists the same
  (`preorder_eq_parentsFirst`);
* a listing does not change while the arena grows (`gather_of_extends`).
-/

namespace CallNames

namespace Arena

/-! ## 1. Listings -/

/-- **Lists a subtree**, where `place` puts a node among what its children list. Only children that
    come before their parent are followed, so that every listing ends. -/
def gather (a : Arena) (place : Nat → List Nat → List Nat) (i : Nat) : List Nat :=
  if i < a.size then
    place i ((a.children (some i)).flatMap fun c => if _h : c < i then a.gather place c else [])
  else []
termination_by i

/-- The nodes of a subtree, each before its children. -/
def parentsFirst (a : Arena) (i : Nat) : List Nat := a.gather List.cons i

/-- The nodes of a subtree, each behind its children. -/
def childrenFirst (a : Arena) (i : Nat) : List Nat := a.gather (fun i below => below ++ [i]) i

/-- **Every child that the arena holds comes before its parent.** -/
def BottomUp (a : Arena) : Prop :=
  ∀ p n c, a.node? p = some n → c ∈ n.form.children → c < a.size → c < p

theorem children_of_node? {a : Arena} {i : Nat} {n : Node} (h : a.node? i = some n) :
    a.children (some i) = n.form.children := by
  simp [children, form?, h]

theorem gather_of_size_le {a : Arena} {i : Nat} (place : Nat → List Nat → List Nat)
    (h : a.size ≤ i) : a.gather place i = [] := by
  rw [gather, if_neg (Nat.not_lt.mpr h)]

/-- A child that the arena does not hold lists nothing, so it does not matter whether it is
    followed. -/
theorem gather_of_children {a : Arena} {i : Nat} {n : Node} (place : Nat → List Nat → List Nat)
    (hn : a.node? i = some n) (hc : ∀ c ∈ n.form.children, c < i ∨ a.size ≤ c) :
    a.gather place i = place i (n.form.children.flatMap (a.gather place)) := by
  rw [gather, if_pos (lt_size_of_node? hn), children_of_node? hn]
  refine congrArg (place i) (List.flatMap_congr fun c hmem => ?_)
  split
  · rfl
  · rename_i hlt
    exact (gather_of_size_le place ((hc c hmem).resolve_left hlt)).symm

/-- **In a bottom-up arena the recursion is the plain one.** -/
theorem gather_of_bottomUp {a : Arena} (ha : a.BottomUp) {i : Nat} {n : Node}
    (place : Nat → List Nat → List Nat) (hn : a.node? i = some n) :
    a.gather place i = place i (n.form.children.flatMap (a.gather place)) := by
  refine gather_of_children place hn fun c hc => ?_
  rcases Nat.lt_or_ge c a.size with hlt | hge
  · exact .inl (ha i n c hn hc hlt)
  · exact .inr hge

/-- A listing does not change while the arena grows. -/
theorem gather_of_extends {a b : Arena} (hab : a.Extends b) (place : Nat → List Nat → List Nat)
    {i : Nat} (hi : i < a.size) : b.gather place i = a.gather place i := by
  induction i using Nat.strongRecOn with
  | ind i ih =>
    have hchildren : b.children (some i) = a.children (some i) := by
      cases hn : a.node? i with
      | none => exact absurd hi (Nat.not_lt.mpr (node?_eq_none_iff.mp hn))
      | some n =>
        obtain ⟨m, hm, _, hform⟩ := hab i n hn
        rw [children_of_node? hn, children_of_node? hm, hform]
    rw [gather, gather, if_pos hi, if_pos (Nat.lt_of_lt_of_le hi hab.size_le), hchildren]
    refine congrArg (place i) (List.flatMap_congr fun c _ => ?_)
    split
    · rename_i hlt
      exact ih c hlt (Nat.lt_trans hlt hi)
    · rfl

/-- Listings that differ only in where the nodes stand hold the same nodes, as often. -/
theorem gather_perm {place place' : Nat → List Nat → List Nat}
    (h : ∀ i l l', l.Perm l' → (place i l).Perm (place' i l')) (a : Arena) (i : Nat) :
    (a.gather place i).Perm (a.gather place' i) := by
  induction i using Nat.strongRecOn with
  | ind i ih =>
    rw [gather, gather]
    split
    · refine h i _ _ (List.Perm.flatMap_left _ fun c _ => ?_)
      split
      · rename_i hlt
        exact ih c hlt
      · exact List.Perm.refl []
    · exact List.Perm.refl []

/-- Both orders list the same nodes. -/
theorem parentsFirst_perm_childrenFirst (a : Arena) (i : Nat) :
    (a.parentsFirst i).Perm (a.childrenFirst i) := by
  refine gather_perm (fun i l l' hl => ?_) a i
  exact (List.Perm.cons i hl).trans (List.perm_append_singleton i l').symm

/-! ## 2. The stack -/

/-- **The stack lists one subtree after the other**: nothing is cut as long as each handle on it has
    as many levels to go as there are handles up to it. -/
theorem descend_eq {a : Arena} (ha : a.BottomUp) (pending : List (Nat × Nat)) (visited : List Nat)
    (hroom : ∀ p ∈ pending, p.1 < p.2 ∨ a.size ≤ p.1) :
    a.descend pending visited = visited.reverse ++ pending.flatMap fun p => a.parentsFirst p.1 := by
  induction pending, visited using descend.induct a with
  | case1 visited => rw [descend, List.flatMap_nil, List.append_nil]
  | case2 visited i rest ih =>
    have hi : a.size ≤ i := (hroom (i, 0) List.mem_cons_self).resolve_left (Nat.not_lt_zero i)
    rw [descend, ih fun p hp => hroom p (List.mem_cons_of_mem _ hp), List.flatMap_cons,
      parentsFirst, gather_of_size_le _ hi, List.nil_append]
  | case3 visited i room rest hn ih =>
    rw [descend]
    split
    · rw [ih fun p hp => hroom p (List.mem_cons_of_mem _ hp), List.flatMap_cons, parentsFirst,
        gather_of_size_le _ (node?_eq_none_iff.mp hn), List.nil_append]
    · rename_i n hn'
      rw [hn] at hn'
      cases hn'
  | case4 visited i room rest n hn ih =>
    have hi : i < room + 1 := by
      rcases hroom (i, room + 1) List.mem_cons_self with hlt | hsize
      · exact hlt
      · exact absurd (lt_size_of_node? hn) (Nat.not_lt.mpr hsize)
    -- a child lies below its parent, so one level less is enough for it
    have hchildren : ∀ p ∈ n.form.children.map (fun c => (c, room)) ++ rest,
        p.1 < p.2 ∨ a.size ≤ p.1 := by
      intro p hp
      rcases List.mem_append.mp hp with hchild | hrest
      · obtain ⟨c, hc, rfl⟩ := List.mem_map.mp hchild
        rcases Nat.lt_or_ge c a.size with hlt | hge
        · have hci := ha i n c hn hc hlt
          exact .inl (by omega)
        · exact .inr hge
      · exact hroom p (List.mem_cons_of_mem _ hrest)
    have hlist : a.parentsFirst i = i :: n.form.children.flatMap a.parentsFirst :=
      gather_of_bottomUp ha List.cons hn
    rw [descend]
    split
    · rename_i hnone
      rw [hn] at hnone
      cases hnone
    · rename_i n' hn'
      rw [hn] at hn'
      cases hn'
      rw [ih hchildren, List.flatMap_append, List.flatMap_map, List.flatMap_cons, hlist]
      simp

/-- **The downward walk is the recursive listing**, each node before its children. -/
theorem preorder_eq_parentsFirst {a : Arena} (ha : a.BottomUp) (i : Nat) :
    a.preorder (some i) = a.parentsFirst i := by
  have hroom : ∀ p ∈ [(i, a.size)], p.1 < p.2 ∨ a.size ≤ p.1 := by
    intro p hp
    rw [List.mem_singleton.mp hp]
    exact Nat.lt_or_ge i a.size
  have hdescend := descend_eq ha [(i, a.size)] [] hroom
  rw [List.flatMap_singleton] at hdescend
  exact hdescend

end Arena

end CallNames
