import CallNames.Proofs.Arena.Ancestry
import CallNames.Proofs.Document.Links

/-!
# Walks through a loaded document

A document is loaded in the order in which its nodes list their children, so the order of the
handles is known, and with it what the walks pass.

* `loadNode_addsTree`: the nodes that loading one value adds are **one block of handles, in the order
  that has children first**;
* `ofJson_postorder`: so the handles of a loaded document are its numbering in that order, and a
  subtree is an interval of handles;
* `ofJson_walks_agree`: the downward and the upward walk agree about what lies below what.
-/

namespace CallNames

open Arena

/-! ## 1. What loading adds -/

/-- What loading one node does: the arena goes on, and all that is new in it is listed from the new
    handle, with children first and in the order of the handles. -/
structure AddsTree (a : Arena) (i : Nat) (b : Arena) : Prop where
  goesOn : a.Extends b
  last : i < b.size
  listed : b.childrenFirst i = List.range' a.size (b.size - a.size)

/-- The same of a run of demands: all that is new is listed from what the slots hold. -/
structure AddsTrees (a : Arena) (rs : List Ref) (b : Arena) : Prop where
  goesOn : a.Extends b
  last : ∀ r ∈ rs.filterMap id, r < b.size
  listed : (rs.filterMap id).flatMap b.childrenFirst = List.range' a.size (b.size - a.size)

namespace AddsTrees

theorem done (a : Arena) : AddsTrees a [] a where
  goesOn := .refl a
  last _ h := absurd h List.not_mem_nil
  listed := by rw [Nat.sub_self]; rfl

/-- The block of a child stands before the blocks of its later siblings. -/
theorem child {a b c : Arena} {i : Nat} {rs : List Ref} (hi : AddsTree a i b)
    (h : AddsTrees b rs c) : AddsTrees a (some i :: rs) c where
  goesOn := hi.goesOn.trans h.goesOn
  last := by
    intro r hr
    rcases List.mem_cons.mp hr with rfl | hr
    · exact Nat.lt_of_lt_of_le hi.last h.goesOn.size_le
    · exact h.last r hr
  listed := by
    have hab := hi.goesOn.size_le
    have hbc := h.goesOn.size_le
    have hblock := List.range'_append_1 (s := a.size) (m := b.size - a.size) (n := c.size - b.size)
    have hfirst : a.size + (b.size - a.size) = b.size := by omega
    have hlength : b.size - a.size + (c.size - b.size) = c.size - a.size := by omega
    have hlater : c.childrenFirst i = b.childrenFirst i := gather_of_extends h.goesOn _ hi.last
    rw [hfirst, hlength] at hblock
    show (i :: rs.filterMap id).flatMap c.childrenFirst = _
    rw [List.flatMap_cons, hlater, hi.listed, h.listed, hblock]

/-- **A node is listed behind its children**, which make up all that is new before it. -/
theorem node {a b : Arena} {n : Node} {rs : List Ref} (hn : n.form.children = rs.filterMap id)
    (h : AddsTrees a rs b) : AddsTree a b.size (b.add n).2 where
  goesOn := h.goesOn.trans (b.extends_add n)
  last := by rw [size_add]; exact Nat.lt_succ_self b.size
  listed := by
    have hab := h.goesOn.size_le
    obtain ⟨m, hm, _, hform⟩ := b.exists_node?_add_size n
    have hchildren : m.form.children = rs.filterMap id := by rw [hform, hn]
    have hlist : (b.add n).2.childrenFirst b.size =
        (rs.filterMap id).flatMap (b.add n).2.childrenFirst ++ [b.size] := by
      rw [← hchildren]
      refine gather_of_children _ hm fun c hc => .inl ?_
      rw [hchildren] at hc
      exact h.last c hc
    have hold : (rs.filterMap id).flatMap (b.add n).2.childrenFirst =
        (rs.filterMap id).flatMap b.childrenFirst :=
      List.flatMap_congr fun c hc => gather_of_extends (b.extends_add n) _ (h.last c hc)
    have hsize : (b.add n).2.size - a.size = (b.size - a.size) + 1 := by rw [size_add]; omega
    have hlast : a.size + (b.size - a.size) = b.size := by omega
    rw [hlist, hold, h.listed, hsize, List.range'_1_concat, hlast]

end AddsTrees

/-- **The nodes that loading one value adds are one block of handles, children first.** -/
theorem loadNode_addsTree {room : Nat} {v : Json} {s t : LoadState} {i : Nat}
    (h : loadNode room v s = .ok i t) : AddsTree s.arena i t.arena :=
  loadNode_induction (P := fun _ => AddsTree) (Q := fun _ => AddsTrees)
    AddsTrees.done
    (fun _ _ _ _ h => ⟨h.goesOn, h.last, h.listed⟩)
    (fun _ _ _ _ _ _ _ _ hv h => h.child hv)
    (fun _ src _ rs _ _ hmet h =>
      h.node (n := src.nodeOf rs) (Form.children_refill (Source.length_of_met hmet)))
    h

/-- Listed with children first, a loaded document is numbered from 0 on. -/
theorem ofJson_childrenFirst {v : Json} {d : Document} (h : (Document.ofJson v).value = .ok d) :
    d.arena.childrenFirst d.root = List.range d.arena.size := by
  obtain ⟨t, ht, ha⟩ := Document.ofJson_eq_ok_iff.mp h
  rw [ha, (loadNode_addsTree ht).listed, List.range_eq_range']
  rfl

/-! ## 2. The order of the handles -/

/-- **The handles of a loaded document number it with children first.** The listing of all nodes,
    each behind its children, is `0, 1, 2, …`, and what the downward walk passes from a node on is
    the interval of handles that ends with it and is as long as its subtree. -/
theorem ofJson_postorder {v : Json} {d : Document} (h : (Document.ofJson v).value = .ok d) :
    (∀ i < d.arena.size, d.arena.childrenFirst i =
      (d.arena.children (some i)).flatMap d.arena.childrenFirst ++ [i]) ∧
    d.arena.childrenFirst d.root = List.range d.arena.size ∧
    ∀ i < d.arena.size, ∃ k ≤ i + 1, (d.arena.childrenFirst i).length = k ∧
      (d.arena.preorder (some i)).length = k ∧
      ∀ j, j ∈ d.arena.preorder (some i) ↔ i < j + k ∧ j ≤ i := by
  have htree := (ofJson_forest h).isTree
  have hroot := ofJson_childrenFirst h
  have hlast := htree.last
  refine ⟨fun i hi => ?_, hroot, fun i hi => ?_⟩
  · obtain ⟨n, hn⟩ := htree.exists_node? (i := i) (by omega)
    rw [children_of_node? hn]
    exact childrenFirst_of_bottomUp htree.bottomUp hn
  · obtain ⟨n, hn⟩ := htree.exists_node? (i := i) (by omega)
    obtain ⟨first, k, hsum, hlist⟩ := htree.childrenFirst_eq_range' hroot hn
    have hperm := d.arena.parentsFirst_perm_childrenFirst i
    rw [hlist] at hperm
    rw [preorder_eq_parentsFirst htree.bottomUp]
    refine ⟨k, by omega, ?_, ?_, fun j => ?_⟩
    · rw [hlist, List.length_range']
    · rw [hperm.length_eq, List.length_range']
    · rw [hperm.mem_iff, List.mem_range'_1]
      omega

theorem elisionCall_postorder :
    (Document.ofJson elisionCall).value = .ok elisionCallLoaded ∧
    (∀ i < elisionCallLoaded.arena.size, elisionCallLoaded.arena.childrenFirst i =
      (elisionCallLoaded.arena.children (some i)).flatMap elisionCallLoaded.arena.childrenFirst ++
        [i]) ∧
    elisionCallLoaded.arena.childrenFirst 7 = List.range 8 ∧
    ∀ i < elisionCallLoaded.arena.size, ∃ k ≤ i + 1,
      (elisionCallLoaded.arena.childrenFirst i).length = k ∧
      (elisionCallLoaded.arena.preorder (some i)).length = k ∧
      ∀ j, j ∈ elisionCallLoaded.arena.preorder (some i) ↔ i < j + k ∧ j ≤ i :=
  ⟨ofJson_elisionCall, ofJson_postorder ofJson_elisionCall⟩

/-! ## 3. The two walks -/

/-- **The downward and the upward walk agree.** A node is listed below another exactly if the other
    is passed on the way up from it. Downward, the walk starts with its node, passes every node
    once and behind its parent, and from the root on it passes all nodes. Upward, it passes every
    node once, ends with the root and is never cut. -/
theorem ofJson_walks_agree {v : Json} {d : Document} (h : (Document.ofJson v).value = .ok d) :
    (∀ i < d.arena.size, ∀ j < d.arena.size,
      (j ∈ d.arena.preorder (some i) ↔ i ∈ (d.arena.ancestors (some j)).value)) ∧
    (∀ i < d.arena.size, (d.arena.preorder (some i)).Nodup ∧
      (d.arena.preorder (some i)).head? = some i ∧
      ∀ before j behind, d.arena.preorder (some i) = before ++ j :: behind →
        j = i ∨ ∃ p ∈ before, d.arena.parent? (some j) = some p) ∧
    (∀ j < d.arena.size, (d.arena.ancestors (some j)).value.Nodup ∧
      (d.arena.ancestors (some j)).value.getLast? = some d.root ∧
      (d.arena.ancestors (some j)).events = []) ∧
    (d.arena.preorder (some d.root)).Perm (List.range d.arena.size) := by
  have htree := (ofJson_forest h).isTree
  have hroot := ofJson_childrenFirst h
  have hlast := htree.last
  have hdown := preorder_eq_parentsFirst htree.bottomUp
  have hnode : ∀ i < d.arena.size, ∃ n, d.arena.node? i = some n :=
    fun i hi => htree.exists_node? (by omega)
  have hup : ∀ j n, d.arena.node? j = some n →
      ∃ l, d.arena.Climbs (some j) l ∧ d.arena.ancestors (some j) = ⟨l, []⟩ := by
    intro j n hn
    obtain ⟨l, hl, hlength⟩ := htree.exists_climbs hn
    exact ⟨l, hl, hl.ancestors_eq (by omega)⟩
  refine ⟨fun i hi j hj => ?_, fun i hi => ?_, fun j hj => ?_, ?_⟩
  · obtain ⟨n, hn⟩ := hnode i hi
    obtain ⟨m, hm⟩ := hnode j hj
    obtain ⟨l, hl, e⟩ := hup j m hm
    rw [hdown, e]
    exact (htree.mem_climbs_iff_mem_parentsFirst hn hm hl).symm
  · obtain ⟨n, hn⟩ := hnode i hi
    rw [hdown]
    refine ⟨?_, ?_, fun before j behind hsplit => htree.parentsFirst_parent_before hn hsplit⟩
    · obtain ⟨first, k, _, hlist⟩ := htree.childrenFirst_eq_range' hroot hn
      rw [(d.arena.parentsFirst_perm_childrenFirst i).nodup_iff, hlist]
      exact List.nodup_range'
    · rw [parentsFirst_of_bottomUp htree.bottomUp hn]
      rfl
  · obtain ⟨n, hn⟩ := hnode j hj
    obtain ⟨l, hl, e⟩ := hup j n hn
    rw [e]
    refine ⟨?_, htree.climbs_getLast hl j n rfl hn, rfl⟩
    exact (htree.climbs_pairwise hl).1.imp Nat.ne_of_lt
  · rw [hdown, ← hroot]
    exact d.arena.parentsFirst_perm_childrenFirst d.root

theorem elisionCall_walks_agree :
    (Document.ofJson elisionCall).value = .ok elisionCallLoaded ∧
    (4 ∈ elisionCallLoaded.arena.preorder (some 6) ↔
      6 ∈ (elisionCallLoaded.arena.ancestors (some 4)).value) ∧
    (elisionCallLoaded.arena.preorder (some 6)).head? = some 6 ∧
    (elisionCallLoaded.arena.ancestors (some 4)).value.getLast? = some 7 ∧
    (elisionCallLoaded.arena.preorder (some 7)).Perm (List.range 8) := by
  obtain ⟨hagree, hdown, hup, hall⟩ := ofJson_walks_agree ofJson_elisionCall
  exact ⟨ofJson_elisionCall, hagree 6 (by decide) 4 (by decide), (hdown 6 (by decide)).2.1,
    (hup 4 (by decide)).2.1, hall⟩

end CallNames
