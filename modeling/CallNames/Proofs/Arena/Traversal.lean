import CallNames.Proofs.Arena.Ancestry
import Mathlib.Logic.Relation
import Mathlib.Tactic.IntervalCases

/-!
# The loop of the downward walk

The downward walk takes one reference after the other from a stack and puts the children of what it
finds in its place, the last one first. Nothing bounds this loop: below a circle it would never end.

* `turn?` is one turn of the loop. `LoopEnds` says that the turns come to an end and where;
* `turns_parentsFirst`: where children come before their parents, **the loop works off the last
  reference with all below it before it comes to the rest of the stack**, whatever the stack holds;
* `ListsBelow` says by recursion what is listed below a reference. One function only does that, and
  `preorder_lists_below` is that the walk is this function and its loop ends.
-/

namespace CallNames

namespace Arena

variable {a : Arena}

/-! ## 1. The loop -/

/-- Where the loop stands: what it has still to look at, the next one last, and the nodes that it
    has passed. -/
structure Visit where
  stack : List Ref
  passed : List Nat := []
deriving DecidableEq, Repr

/-- **One turn of the loop**: the last reference is taken from the stack. If it leads to a node, the
    node is passed and its children are put on the stack, the first one on top. -/
def turn? (a : Arena) (v : Visit) : Option Visit :=
  v.stack.getLast?.map fun r =>
    match a.lookup? r with
    | none => { v with stack := v.stack.dropLast }
    | some (i, n) =>
      ⟨v.stack.dropLast ++ (n.form.children.map some).reverse, v.passed ++ [i]⟩

/-- Some turns of the loop. -/
def Turns (a : Arena) : Visit → Visit → Prop :=
  Relation.ReflTransGen fun v w => a.turn? v = some w

/-- **The loop comes to an end**: after some turns there is nothing left on the stack. -/
def LoopEnds (a : Arena) (v w : Visit) : Prop := a.Turns v w ∧ a.turn? w = none

theorem turn?_of_none {stack : List Ref} {r : Ref} {passed : List Nat} (h : a.get? r = none) :
    a.turn? ⟨stack ++ [r], passed⟩ = some ⟨stack, passed⟩ := by
  simp [turn?, lookup?_eq_none_iff.mpr h]

theorem turn?_of_node {stack : List Ref} {i : Nat} {n : Node} {passed : List Nat}
    (h : a.node? i = some n) :
    a.turn? ⟨stack ++ [some i], passed⟩ =
      some ⟨stack ++ (n.form.children.map some).reverse, passed ++ [i]⟩ := by
  simp [turn?, lookup?_of_node? h]

/-- References that are worked off one by one are worked off together, **the last one first**. -/
theorem turns_reverse {f : Nat → List Nat} {cs : List Nat}
    (h : ∀ c ∈ cs, ∀ stack passed, a.Turns ⟨stack ++ [some c], passed⟩ ⟨stack, passed ++ f c⟩)
    (stack : List Ref) (passed : List Nat) :
    a.Turns ⟨stack ++ (cs.map some).reverse, passed⟩ ⟨stack, passed ++ cs.flatMap f⟩ := by
  induction cs generalizing passed with
  | nil =>
    rw [List.map_nil, List.reverse_nil, List.append_nil, List.flatMap_nil, List.append_nil]
    exact .refl
  | cons c cs ih =>
    have hfirst := h c List.mem_cons_self (stack ++ (cs.map some).reverse) passed
    have hrest := ih (fun d hd => h d (List.mem_cons_of_mem c hd)) (passed ++ f c)
    rw [List.map_cons, List.reverse_cons, ← List.append_assoc, List.flatMap_cons,
      ← List.append_assoc]
    exact hfirst.trans hrest

/-- **The loop works off a node with all below it**, and leaves the rest of the stack alone. -/
theorem turns_parentsFirst (ha : a.BottomUp) (i : Nat) (stack : List Ref) (passed : List Nat) :
    a.Turns ⟨stack ++ [some i], passed⟩ ⟨stack, passed ++ a.parentsFirst i⟩ := by
  induction i using Nat.strongRecOn generalizing stack passed with
  | ind i ih =>
    cases hn : a.node? i with
    | none =>
      rw [parentsFirst, gather_of_size_le _ (node?_eq_none_iff.mp hn), List.append_nil]
      exact .single (turn?_of_none hn)
    | some n =>
      -- a child that the arena does not hold is dropped, and any other one comes before its parent
      have hchildren : ∀ c ∈ n.form.children, ∀ stack passed,
          a.Turns ⟨stack ++ [some c], passed⟩ ⟨stack, passed ++ a.parentsFirst c⟩ := by
        intro c hc stack passed
        rcases Nat.lt_or_ge c a.size with hlt | hge
        · exact ih c (ha i n c hn hc hlt) stack passed
        · rw [parentsFirst, gather_of_size_le _ hge, List.append_nil]
          exact .single (turn?_of_none (node?_eq_none_iff.mpr hge))
      have hbelow := turns_reverse hchildren stack (passed ++ [i])
      rw [parentsFirst_of_bottomUp ha hn, List.append_cons passed i]
      exact .head (turn?_of_node hn) hbelow

/-! ## 2. The recursion -/

/-- **What is listed below a reference**: nothing if it leads to no node, and else the node and then
    what is listed below its children. -/
structure ListsBelow (a : Arena) (pre : Ref → List Nat) : Prop where
  absent : ∀ r, a.get? r = none → pre r = []
  node : ∀ i n, a.node? i = some n →
    pre (some i) = i :: (a.children (some i)).flatMap fun c => pre (some c)

/-- Where children come before their parents, **the recursion determines what is listed**. -/
theorem ListsBelow.unique (ha : a.BottomUp) {pre pre' : Ref → List Nat} (h : a.ListsBelow pre)
    (h' : a.ListsBelow pre') (i : Nat) : pre (some i) = pre' (some i) := by
  induction i using Nat.strongRecOn with
  | ind i ih =>
    cases hn : a.node? i with
    | none => rw [h.absent (some i) hn, h'.absent (some i) hn]
    | some n =>
      rw [h.node i n hn, h'.node i n hn, children_of_node? hn]
      refine congrArg (List.cons i) (List.flatMap_congr fun c hc => ?_)
      rcases Nat.lt_or_ge c a.size with hlt | hge
      · exact ih c (ha i n c hn hc hlt)
      · have hnone : a.get? (some c) = none := node?_eq_none_iff.mpr hge
        rw [h.absent _ hnone, h'.absent _ hnone]

theorem preorder_none (a : Arena) : a.preorder none = [] := by
  show a.descend [] [] = []
  rw [descend]
  rfl

/-- The walk lists by this recursion. -/
theorem listsBelow_preorder (ha : a.BottomUp) : a.ListsBelow a.preorder where
  absent r hr := by
    cases r with
    | none => exact preorder_none a
    | some i =>
      rw [preorder_eq_parentsFirst ha]
      exact gather_of_size_le _ (node?_eq_none_iff.mp hr)
  node i n hn := by
    have hwalk : (fun c => a.preorder (some c)) = a.parentsFirst :=
      funext (preorder_eq_parentsFirst ha)
    rw [hwalk, preorder_eq_parentsFirst ha, children_of_node? hn]
    exact parentsFirst_of_bottomUp ha hn

/-- The loop ends, and has then passed what the walk lists. -/
theorem loopEnds_preorder (ha : a.BottomUp) (r : Ref) :
    a.LoopEnds ⟨[r], []⟩ ⟨[], a.preorder r⟩ := by
  refine ⟨?_, rfl⟩
  cases r with
  | none =>
    have hturn : a.turn? ⟨[] ++ [none], []⟩ = some ⟨[], []⟩ := turn?_of_none rfl
    rw [preorder_none]
    exact .single hturn
  | some i =>
    rw [preorder_eq_parentsFirst ha]
    exact turns_parentsFirst ha i [] []

/-! ## 3. The walk -/

/-- **The downward walk is the recursive listing, and its loop ends.** In an arena in which every
    child that is there comes before its parent, whatever else may be shared, repeated or missing,
    exactly one function lists what is below each reference, and the walk is it. Starting with any
    reference, the loop empties its stack and has then passed what the walk lists. -/
theorem preorder_lists_below (ha : a.BottomUp) :
    (∀ pre, a.ListsBelow pre ↔ pre = a.preorder) ∧
    ∀ r, a.LoopEnds ⟨[r], []⟩ ⟨[], a.preorder r⟩ := by
  refine ⟨fun pre => ⟨fun h => ?_, fun e => e ▸ listsBelow_preorder ha⟩, loopEnds_preorder ha⟩
  funext r
  cases r with
  | none => rw [h.absent none rfl, preorder_none]
  | some i => exact h.unique ha (listsBelow_preorder ha) i

/-- A node that two others share, one of them twice, beside a hole and a child that is not there. -/
def sharedParts : Arena :=
  ⟨#[{ form := .this }, { form := .array [some 0, none, some 9, some 0] },
    { form := .array [some 1, some 0, some 1] }]⟩

theorem bottomUp_sharedParts : sharedParts.BottomUp := by
  intro p n c hn hc hlt
  have hp := lt_size_of_node? hn
  change p < 3 at hp
  change c < 3 at hlt
  interval_cases p <;> simp [sharedParts, node?] at hn <;> subst hn <;>
    simp [Form.children, Form.slots] at hc <;> omega

/-- What is shared is listed as often as it is reached. -/
theorem sharedParts_lists_below :
    sharedParts.BottomUp ∧
    sharedParts.preorder (some 2) =
      2 :: (sharedParts.preorder (some 1) ++ sharedParts.preorder (some 0) ++
        sharedParts.preorder (some 1)) ∧
    sharedParts.LoopEnds ⟨[some 2], []⟩ ⟨[], [2, 1, 0, 0, 0, 1, 0, 0]⟩ := by
  obtain ⟨hlists, hends⟩ := preorder_lists_below bottomUp_sharedParts
  have hlist : sharedParts.preorder (some 2) = [2, 1, 0, 0, 0, 1, 0, 0] := by decide +kernel
  have hbelow := ((hlists _).mpr rfl).node 2 _ rfl
  rw [show sharedParts.children (some 2) = [1, 0, 1] from rfl] at hbelow
  exact ⟨bottomUp_sharedParts, by simpa using hbelow, hlist ▸ hends (some 2)⟩

end Arena

end CallNames
