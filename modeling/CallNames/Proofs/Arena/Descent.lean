import CallNames.Proofs.Arena.Ancestry

/-!
# The way down to a node

The upward walk follows the stored parents. The same nodes are passed on the way down, from child to
child, without asking any node for its parent.

* `Descends a i j p`: from `i` on, the children that `p` lists lead down to `j`;
* `IsTree.descends_iff`: **in a tree there is exactly one way down from the root to a node**, and it
  is the upward walk read backwards.
-/

namespace CallNames

namespace Arena

/-- **A way down**: each handle is followed by that of one of its children. -/
inductive Descends (a : Arena) : Nat → Nat → List Nat → Prop where
  | here {i : Nat} {n : Node} (hn : a.node? i = some n) : Descends a i i [i]
  | child {i c j : Nat} {n : Node} {p : List Nat} (hn : a.node? i = some n)
      (hc : c ∈ n.form.children) (rest : Descends a c j p) : Descends a i j (i :: p)

variable {a : Arena} {root : Nat}

/-- A way down can be followed by one more child. -/
theorem Descends.concat {i j c : Nat} {p : List Nat} {n m : Node} (h : a.Descends i j p)
    (hn : a.node? j = some n) (hc : c ∈ n.form.children) (hm : a.node? c = some m) :
    a.Descends i c (p ++ [c]) := by
  induction h with
  | here _ => exact .child hn hc (.here hm)
  | child hi hd _ ih => exact .child hi hd (ih hn)

/-- From one reference there is one upward walk. -/
theorem Climbs.unique {r : Ref} {l l' : List Nat} (h : a.Climbs r l) (h' : a.Climbs r l') :
    l = l' := by
  induction h generalizing l' with
  | stop hr =>
    cases h' with
    | stop _ => rfl
    | node hn _ =>
      rw [get?_some, hn] at hr
      cases hr
  | node hn _ ih =>
    cases h' with
    | stop hr =>
      rw [get?_some, hn] at hr
      cases hr
    | node hn' rest =>
      rw [hn] at hn'
      cases hn'
      rw [ih rest]

/-- In a tree, the upward walk is not cut. -/
theorem IsTree.value_ancestors (h : a.IsTree root) {i : Nat} {n : Node} {l : List Nat}
    (hn : a.node? i = some n) (hl : a.Climbs (some i) l) : (a.ancestors (some i)).value = l := by
  obtain ⟨l', hl', hlength⟩ := h.exists_climbs hn
  rw [hl'.unique hl] at hlength
  rw [hl.ancestors_eq (by omega)]

/-- A way down, read backwards, goes up to where it starts. -/
theorem IsTree.climbs_of_descends (h : a.IsTree root) {i j : Nat} {p above : List Nat} {n : Node}
    (hp : a.Descends i j p) (hn : a.node? i = some n) (habove : a.Climbs n.parent above) :
    a.Climbs (some j) (p.reverse ++ above) := by
  induction hp generalizing n above with
  | here _ => exact .node hn habove
  | @child i c j n' p hn' hc _ ih =>
    rw [hn] at hn'
    cases hn'
    obtain ⟨m, hm, hparent⟩ := h.parent_of_child hn hc
    have hup : a.Climbs m.parent (i :: above) := by
      rw [hparent]
      exact .node hn habove
    have hall := ih hm hup
    rw [List.reverse_cons, List.append_assoc]
    exact hall

/-- An upward walk, read backwards, goes down from the root. -/
theorem IsTree.descends_of_climbs (h : a.IsTree root) {r : Ref} {l : List Nat}
    (hl : a.Climbs r l) : ∀ j n, r = some j → a.node? j = some n → a.Descends root j l.reverse := by
  induction hl with
  | stop hr =>
    intro j n e hn
    rw [e, get?_some, hn] at hr
    cases hr
  | @node i n l hn rest ih =>
    intro j _ e _
    cases e
    rcases h.parent_cases hn with ⟨rfl, hp⟩ | ⟨p, m, hp, _, hm, hc⟩
    · rw [hp] at rest
      cases rest
      exact .here hn
    · rw [List.reverse_cons]
      exact (ih p m hp hm).concat hm hc hn

/-- **The way down from the root to a node is the upward walk from the node, read backwards.** -/
theorem IsTree.descends_iff (h : a.IsTree root) {j : Nat} {n : Node} {l p : List Nat}
    (hn : a.node? j = some n) (hl : a.Climbs (some j) l) :
    a.Descends root j p ↔ p = l.reverse := by
  constructor
  · intro hp
    obtain ⟨m, hm, hparent⟩ := h.top
    have hup := h.climbs_of_descends hp hm (by rw [hparent]; exact .stop rfl)
    rw [List.append_nil] at hup
    rw [hl.unique hup, List.reverse_reverse]
  · rintro rfl
    exact h.descends_of_climbs hl j n rfl hn

end Arena

end CallNames
