import CallNames.Proofs.Arena.Forest
import CallNames.Proofs.Arena.Subtree

/-!
# Upward and downward in a tree

* `Climbs a r l`: the upward walk from `r` ends, and `l` lists what it passes. Where it ends within
  the size of the arena, **the bound of `ancestors` cuts nothing** (`Climbs.ancestors_eq`);
* in a tree every upward walk ends at the root, and handles grow along it;
* `mem_climbs_iff_mem_parentsFirst`: **a node lies below another exactly if the other is passed on
  the way up from it**;
* `parentsFirst_parent_before`: a listing has every node behind its parent;
* `childrenFirst_eq_range'`: if the tree as a whole is numbered with children first, every subtree
  is an interval of handles.
-/

namespace CallNames

namespace Arena

/-! ## 1. Upward walks that end -/

/-- **An upward walk that ends**: the handles from a reference on, each followed by its parent, up
    to where the arena holds no node. -/
inductive Climbs (a : Arena) : Ref → List Nat → Prop where
  | stop {r : Ref} (h : a.get? r = none) : Climbs a r []
  | node {i : Nat} {n : Node} {l : List Nat} (h : a.node? i = some n)
      (rest : Climbs a n.parent l) : Climbs a (some i) (i :: l)

theorem lookup?_eq_none_iff {a : Arena} {r : Ref} : a.lookup? r = none ↔ a.get? r = none := by
  cases r <;> simp [lookup?]

theorem lookup?_of_node? {a : Arena} {i : Nat} {n : Node} (h : a.node? i = some n) :
    a.lookup? (some i) = some (i, n) := by
  simp [lookup?, h]

theorem parent?_of_node? {a : Arena} {i : Nat} {n : Node} (h : a.node? i = some n) :
    a.parent? (some i) = n.parent := by
  rw [parent?, get?_some, h]
  rfl

/-- A walk that ends within its bound is not cut. -/
theorem Climbs.climb_eq {a : Arena} {r : Ref} {l : List Nat} (h : a.Climbs r l) {room : Nat}
    (hroom : l.length ≤ room) (visited : List Nat) :
    a.climb room r visited = ⟨visited.reverse ++ l, []⟩ := by
  induction h generalizing room visited with
  | stop hr =>
    have hlookup := lookup?_eq_none_iff.mpr hr
    cases room <;> simp [climb, hlookup]
  | @node i n l hn _ ih =>
    obtain ⟨k, rfl⟩ : ∃ k, room = k + 1 := ⟨room - 1, by rw [List.length_cons] at hroom; omega⟩
    have hk : l.length ≤ k := Nat.le_of_succ_le_succ hroom
    rw [climb, lookup?_of_node? hn]
    show a.climb k n.parent (i :: visited) = _
    rw [ih hk, List.reverse_cons, List.append_assoc]
    rfl

theorem Climbs.ancestors_eq {a : Arena} {r : Ref} {l : List Nat} (h : a.Climbs r l)
    (hlength : l.length ≤ a.size) : a.ancestors r = ⟨l, []⟩ :=
  h.climb_eq hlength []

/-- The parent of a node that is passed is passed too. -/
theorem Climbs.parent_mem {a : Arena} {r : Ref} {l : List Nat} (h : a.Climbs r l) {i p : Nat}
    {n m : Node} (hi : i ∈ l) (hn : a.node? i = some n) (hp : n.parent = some p)
    (hm : a.node? p = some m) : p ∈ l := by
  induction h with
  | stop => exact absurd hi List.not_mem_nil
  | @node j n' l hn' rest ih =>
    rcases List.mem_cons.mp hi with rfl | hi
    · rw [hn] at hn'
      cases hn'
      rw [hp] at rest
      cases rest with
      | stop hnone =>
        rw [get?_some, hm] at hnone
        cases hnone
      | node _ _ => exact List.mem_cons_of_mem _ List.mem_cons_self
    · exact List.mem_cons_of_mem j (ih hi)

/-! ## 2. Trees -/

section Trees

variable {a : Arena} {root : Nat}

theorem IsTree.bottomUp (h : a.IsTree root) : a.BottomUp :=
  fun p n c hn hc _ => (h.linked p n c hn (Form.mem_children.mp hc)).1

/-- **The parent of a node is the node it is a child of**, and only the root has none. -/
theorem IsTree.parent_cases (h : a.IsTree root) {i : Nat} {n : Node} (hn : a.node? i = some n) :
    (i = root ∧ n.parent = none) ∨
    ∃ p m, n.parent = some p ∧ i < p ∧ a.node? p = some m ∧ i ∈ m.form.children := by
  have hi := lt_size_of_node? hn
  have hlast := h.last
  by_cases hroot : i = root
  · obtain ⟨m, hm, hp⟩ := h.top
    rw [← hroot, hn] at hm
    cases hm
    exact .inl ⟨hroot, hp⟩
  · have hcount := h.once i (by omega)
    have hslot : some i ∈ a.slots := List.count_pos_iff.mp (by omega)
    obtain ⟨p, m, hm, hs⟩ := mem_slots_iff.mp hslot
    obtain ⟨hlt, n', hn', hp⟩ := h.linked p m i hm hs
    rw [hn] at hn'
    cases hn'
    exact .inr ⟨p, m, hp, hlt, hm, Form.mem_children.mpr hs⟩

/-- A child knows its parent. -/
theorem IsTree.parent_of_child (h : a.IsTree root) {p c : Nat} {n : Node} (hn : a.node? p = some n)
    (hc : c ∈ n.form.children) : ∃ m, a.node? c = some m ∧ m.parent = some p :=
  (h.linked p n c hn (Form.mem_children.mp hc)).2

/-- Every handle up to the root is that of a node. -/
theorem IsTree.exists_node? (h : a.IsTree root) {i : Nat} (hi : i ≤ root) :
    ∃ n, a.node? i = some n := by
  have hlast := h.last
  cases hn : a.node? i with
  | none =>
    have hsize := node?_eq_none_iff.mp hn
    omega
  | some n => exact ⟨n, rfl⟩

/-- Every upward walk ends, and passes no more nodes than there are from its start on. -/
theorem IsTree.exists_climbs (h : a.IsTree root) {i : Nat} {n : Node} (hn : a.node? i = some n) :
    ∃ l, a.Climbs (some i) l ∧ l.length + i ≤ a.size := by
  -- handles grow upward, so there is always less left above
  induction hk : a.size - i using Nat.strongRecOn generalizing i n with
  | ind k ih =>
    have hi := lt_size_of_node? hn
    rcases h.parent_cases hn with ⟨_, hp⟩ | ⟨p, m, hp, hlt, hm, _⟩
    · refine ⟨[i], .node hn (.stop (by rw [hp]; rfl)), ?_⟩
      rw [List.length_singleton]
      omega
    · have hpsize := lt_size_of_node? hm
      obtain ⟨l, hl, hlength⟩ := ih (a.size - p) (by omega) hm rfl
      refine ⟨i :: l, .node hn (by rw [hp]; exact hl), ?_⟩
      rw [List.length_cons]
      omega

/-- Handles grow along an upward walk. -/
theorem IsTree.climbs_pairwise (h : a.IsTree root) {r : Ref} {l : List Nat} (hl : a.Climbs r l) :
    l.Pairwise (· < ·) ∧ ∀ i, r = some i → ∀ j ∈ l, i ≤ j := by
  induction hl with
  | stop => exact ⟨.nil, fun _ _ _ hj => absurd hj List.not_mem_nil⟩
  | @node i n l hn rest ih =>
    have habove : ∀ j ∈ l, i < j := by
      intro j hj
      rcases h.parent_cases hn with ⟨_, hp⟩ | ⟨p, _, hp, hlt, _, _⟩
      · rw [hp] at rest
        cases rest
        exact absurd hj List.not_mem_nil
      · exact Nat.lt_of_lt_of_le hlt (ih.2 p hp j hj)
    refine ⟨List.pairwise_cons.mpr ⟨habove, ih.1⟩, ?_⟩
    intro i' e j hj
    cases e
    rcases List.mem_cons.mp hj with rfl | hj
    · exact Nat.le_refl j
    · exact Nat.le_of_lt (habove j hj)

/-- Every upward walk ends at the root. -/
theorem IsTree.climbs_getLast (h : a.IsTree root) {r : Ref} {l : List Nat} (hl : a.Climbs r l) :
    ∀ i n, r = some i → a.node? i = some n → l.getLast? = some root := by
  induction hl with
  | stop hr =>
    intro i n e hn
    rw [e, get?_some, hn] at hr
    cases hr
  | @node i n l hn rest ih =>
    intro _ _ _ _
    rcases h.parent_cases hn with ⟨rfl, hp⟩ | ⟨p, m, hp, _, hm, _⟩
    · rw [hp] at rest
      cases rest
      rfl
    · rw [List.getLast?_cons, ih p m hp hm]
      rfl

/-! ## 3. Listings of a tree -/

/-- A node lists itself. -/
theorem mem_parentsFirst_self {i : Nat} (hi : i < a.size) : i ∈ a.parentsFirst i := by
  rw [parentsFirst, gather, if_pos hi]
  exact List.mem_cons_self

theorem parentsFirst_of_bottomUp (ha : a.BottomUp) {i : Nat} {n : Node} (hn : a.node? i = some n) :
    a.parentsFirst i = i :: n.form.children.flatMap a.parentsFirst :=
  gather_of_bottomUp ha List.cons hn

/-- What a node lists besides itself is listed by its children. -/
theorem IsTree.mem_parentsFirst_iff (h : a.IsTree root) {i j : Nat} {n : Node}
    (hn : a.node? i = some n) :
    j ∈ a.parentsFirst i ↔ j = i ∨ ∃ c ∈ n.form.children, j ∈ a.parentsFirst c := by
  rw [parentsFirst_of_bottomUp h.bottomUp hn, List.mem_cons, List.mem_flatMap]

/-- A listing holds the children of all its nodes. -/
theorem IsTree.child_mem_parentsFirst (h : a.IsTree root) {i j c : Nat} {n m : Node}
    (hn : a.node? i = some n) (hj : j ∈ a.parentsFirst i) (hm : a.node? j = some m)
    (hc : c ∈ m.form.children) : c ∈ a.parentsFirst i := by
  induction i using Nat.strongRecOn generalizing n with
  | ind i ih =>
    rcases (h.mem_parentsFirst_iff hn).mp hj with rfl | ⟨d, hd, hjd⟩
    · rw [hm] at hn
      cases hn
      obtain ⟨k, hk, _⟩ := h.parent_of_child hm hc
      exact (h.mem_parentsFirst_iff hm).mpr (.inr ⟨c, hc, mem_parentsFirst_self (lt_size_of_node? hk)⟩)
    · obtain ⟨k, hk, _⟩ := h.parent_of_child hn hd
      have hlt := h.bottomUp i n d hn hd (lt_size_of_node? hk)
      exact (h.mem_parentsFirst_iff hn).mpr (.inr ⟨d, hd, ih d hlt hk hjd⟩)

/-- **A node is listed below another exactly if the other is passed on the way up from it.** -/
theorem IsTree.mem_climbs_iff_mem_parentsFirst (h : a.IsTree root) {i j : Nat} {n m : Node}
    {l : List Nat} (hn : a.node? i = some n) (hm : a.node? j = some m)
    (hl : a.Climbs (some j) l) : i ∈ l ↔ j ∈ a.parentsFirst i := by
  constructor
  · -- along the way up, each node is a child of the next one
    intro hi
    have hup : ∀ r l, a.Climbs r l → ∀ j, r = some j → i ∈ l → j ∈ a.parentsFirst i := by
      intro r l hl
      induction hl with
      | stop => exact fun _ _ hi => absurd hi List.not_mem_nil
      | @node k nk l hk rest ih =>
        intro j e hi
        cases e
        rcases List.mem_cons.mp hi with rfl | hi
        · exact mem_parentsFirst_self (lt_size_of_node? hk)
        · rcases h.parent_cases hk with ⟨_, hp⟩ | ⟨p, mp, hp, _, hmp, hchild⟩
          · rw [hp] at rest
            cases rest
            exact absurd hi List.not_mem_nil
          · exact h.child_mem_parentsFirst hn (ih p hp hi) hmp hchild
    exact hup (some j) l hl j rfl hi
  · -- down the listing, each node is the parent of the next one
    intro hj
    induction i using Nat.strongRecOn generalizing n with
    | ind i ih =>
      rcases (h.mem_parentsFirst_iff hn).mp hj with rfl | ⟨c, hc, hjc⟩
      · cases hl with
        | stop hnone =>
          rw [get?_some, hm] at hnone
          cases hnone
        | node _ _ => exact List.mem_cons_self
      · obtain ⟨k, hk, hp⟩ := h.parent_of_child hn hc
        have hlt := h.bottomUp i n c hn hc (lt_size_of_node? hk)
        exact hl.parent_mem (ih c hlt hk hjc) hk hp hn

/-- Where an item stands among lists put together, it stands in one of the lists. -/
theorem exists_split_of_flatMap {f : Nat → List Nat} {cs before behind : List Nat} {j : Nat}
    (h : cs.flatMap f = before ++ j :: behind) :
    ∃ c ∈ cs, ∃ pre before' behind', before = pre ++ before' ∧ f c = before' ++ j :: behind' := by
  induction cs generalizing before with
  | nil => exact absurd h.symm (List.append_ne_nil_of_right_ne_nil before (List.cons_ne_nil j behind))
  | cons c cs ih =>
    rw [List.flatMap_cons] at h
    rcases List.append_eq_append_iff.mp h with ⟨later, rfl, hlater⟩ | ⟨own, hown, hrest⟩
    · obtain ⟨d, hd, pre, before', behind', rfl, e⟩ := ih hlater
      exact ⟨d, List.mem_cons_of_mem c hd, f c ++ pre, before', behind', by rw [List.append_assoc], e⟩
    · cases own with
      | nil =>
        -- the first list ends right before the item
        have hfirst : cs.flatMap f = [] ++ j :: behind := hrest.symm
        obtain ⟨d, hd, pre, before', behind', e', e⟩ := ih hfirst
        obtain ⟨rfl, rfl⟩ := List.append_eq_nil_iff.mp e'.symm
        exact ⟨d, List.mem_cons_of_mem c hd, before, [], behind', (List.append_nil _).symm, e⟩
      | cons x own =>
        obtain ⟨rfl, _⟩ := List.cons.inj hrest
        exact ⟨c, List.mem_cons_self, [], before, own, rfl, hown⟩

/-- **A listing has every node behind its parent**, the node it starts with apart. -/
theorem IsTree.parentsFirst_parent_before (h : a.IsTree root) {i j : Nat} {n : Node}
    {before behind : List Nat} (hn : a.node? i = some n)
    (hsplit : a.parentsFirst i = before ++ j :: behind) :
    j = i ∨ ∃ p ∈ before, a.parent? (some j) = some p := by
  induction i using Nat.strongRecOn generalizing n before behind with
  | ind i ih =>
    rw [parentsFirst_of_bottomUp h.bottomUp hn] at hsplit
    cases before with
    | nil => exact .inl (List.cons.inj hsplit).1.symm
    | cons first before =>
      obtain ⟨rfl, hflat⟩ := List.cons.inj hsplit
      obtain ⟨c, hc, pre, before', behind', rfl, hlist⟩ := exists_split_of_flatMap hflat
      obtain ⟨k, hk, hp⟩ := h.parent_of_child hn hc
      have hlt := h.bottomUp i n c hn hc (lt_size_of_node? hk)
      rcases ih c hlt hk hlist with rfl | ⟨p, hpmem, hparent⟩
      · refine .inr ⟨i, List.mem_cons_self, ?_⟩
        rw [parent?, get?_some, hk]
        exact hp
      · refine .inr ⟨p, List.mem_cons_of_mem _ (List.mem_append_right pre hpmem), hparent⟩

/-! ## 4. Subtrees as intervals -/

theorem childrenFirst_of_bottomUp (ha : a.BottomUp) {i : Nat} {n : Node}
    (hn : a.node? i = some n) :
    a.childrenFirst i = n.form.children.flatMap a.childrenFirst ++ [i] :=
  gather_of_bottomUp ha _ hn

/-- The listing of a subtree stands as a whole in the listing of the tree. -/
theorem IsTree.childrenFirst_infix (h : a.IsTree root) {i : Nat} {n : Node}
    (hn : a.node? i = some n) : a.childrenFirst i <:+: a.childrenFirst root := by
  -- from a node to its parent, up to the root
  induction hk : a.size - i using Nat.strongRecOn generalizing i n with
  | ind k ih =>
    rcases h.parent_cases hn with ⟨rfl, _⟩ | ⟨p, m, _, hlt, hm, hc⟩
    · exact List.infix_refl _
    · have hp := lt_size_of_node? hm
      have hparent : a.childrenFirst i <:+: a.childrenFirst p := by
        rw [childrenFirst_of_bottomUp h.bottomUp hm]
        exact (List.infix_flatMap_of_mem hc _).trans (List.prefix_append _ _).isInfix
      exact hparent.trans (ih (a.size - p) (by omega) hm rfl)

/-- **A subtree is an interval of handles** that ends with its root. -/
theorem IsTree.childrenFirst_eq_range' (h : a.IsTree root)
    (hroot : a.childrenFirst root = List.range a.size) {i : Nat} {n : Node}
    (hn : a.node? i = some n) :
    ∃ first k, first + k = i + 1 ∧ a.childrenFirst i = List.range' first k := by
  obtain ⟨before, behind, hinfix⟩ := h.childrenFirst_infix hn
  rw [hroot, List.range_eq_range'] at hinfix
  obtain ⟨m, _, hleft, _⟩ := List.range'_eq_append_iff.mp hinfix.symm
  obtain ⟨m', _, _, hlist⟩ := List.range'_eq_append_iff.mp hleft.symm
  refine ⟨_, _, ?_, hlist⟩
  -- the last handle listed is the node itself
  rw [childrenFirst_of_bottomUp h.bottomUp hn] at hlist
  obtain ⟨l, hl, _, hlast⟩ := List.range'_eq_append_iff.mp hlist.symm
  obtain ⟨hfirst, hone⟩ := List.range'_eq_singleton_iff.mp hlast.symm
  omega

end Trees

end Arena

end CallNames
