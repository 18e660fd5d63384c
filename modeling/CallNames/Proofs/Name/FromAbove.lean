import CallNames.Proofs.Arena.Descent
import CallNames.Proofs.Name.Surroundings
import CallNames.Proofs.Report.Completeness

/-!
# The enclosing function from above

The function around a node is searched upward, along stored parents and within a bound. Seen from
above it is simply the last function on the way from the root down to the node.

* `Arena.nameAlong` reads the name of the last function off a way down, **asking no node for its
  parent**;
* `nameAlong_concat`: what one more node at the end of the way changes. The upward search takes the
  same step the other way round;
* `ofJson_enclosingName_from_above`: in a loaded document the two agree, for every node.
-/

namespace CallNames

namespace Arena

variable {a : Arena} {root : Nat}

/-! ## 1. Along a way down -/

/-- Whether a node is a function, in any of the three spellings. -/
def isFunction (a : Arena) (i : Nat) : Bool :=
  (a.form? (some i)).any fun form => form.kind.isFunction

/-- **What names the last function on a way down**: its own name, or else what the node before it
    assigns it to. `above` is the node before the whole way. -/
def nameAlong (a : Arena) (above : Ref) : List Nat → Ref
  | [] => none
  | i :: rest =>
    if rest.any a.isFunction then a.nameAlong (some i) rest
    else
      match a.form? (some i) with
      | some (.function _ (some id) _ _) => some id
      | some (.function _ none _ _) => a.targetBelow above
      | _ => none

theorem isFunction_of_form? {i : Nat} {form : Form Nat} (h : a.form? (some i) = some form) :
    a.isFunction i = form.kind.isFunction := by
  rw [isFunction, h, Option.any_some]

/-- **One more node at the end of the way**: a function there is the last one, and any other node
    leaves the last one as it is. -/
theorem nameAlong_concat {i : Nat} {n : Node} (hn : a.node? i = some n) (above : Ref)
    (p : List Nat) :
    a.nameAlong above (p ++ [i]) =
      match n.form with
      | .function _ id _ _ => id.or (a.targetBelow (p.getLast?.or above))
      | _ => a.nameAlong above p := by
  have hform := form?_of_node? hn
  have hfunction := isFunction_of_form? hform
  induction p generalizing above with
  | nil =>
    simp only [List.nil_append, nameAlong, List.any_nil, Bool.false_eq_true, if_false, hform]
    cases n.form with
    | function style id params body => cases id <;> rfl
    | _ => rfl
  | cons j p ih =>
    have hlast : (j :: p).getLast?.or above = p.getLast?.or (some j) := by
      rw [List.getLast?_cons]
      cases p.getLast? <;> rfl
    have hany : (p ++ [i]).any a.isFunction = (p.any a.isFunction || n.form.kind.isFunction) := by
      rw [List.any_append, List.any_cons, List.any_nil, Bool.or_false, hfunction]
    rw [List.cons_append, nameAlong, hany, ih, hlast]
    cases n.form with
    | function style id params body =>
      have hstyle : style.kind.isFunction = true := by cases style <;> rfl
      simp only [Form.kind, hstyle, Bool.or_true, if_true]
    | call style callee arguments =>
      have hstyle : style.kind.isFunction = false := by cases style <;> rfl
      simp only [Form.kind, hstyle, Bool.or_false, nameAlong]
    | _ => simp only [Form.kind, Kind.isFunction, Bool.or_false, nameAlong]

/-! ## 2. The upward search -/

/-- **The upward search finds what the way down names**: both take one step at each node. -/
theorem IsTree.enclosingName_eq_nameAlong (h : a.IsTree root) {r : Ref} {l : List Nat}
    (hl : a.Climbs r l) :
    ∀ i n, r = some i → a.node? i = some n →
      (a.enclosingName r).value = a.nameAlong none l.reverse := by
  induction hl with
  | stop hr =>
    intro i n e hn
    rw [e, get?_some, hn] at hr
    cases hr
  | @node i n l hn rest ih =>
    intro _ _ _ _
    rw [List.reverse_cons, nameAlong_concat hn, h.value_enclosingName hn]
    rcases h.parent_cases hn with ⟨_, hp⟩ | ⟨p, m, hp, _, hm, _⟩
    · rw [hp] at rest ⊢
      cases rest
      rw [value_enclosingName_none]
      rfl
    · have hparent := ih p m hp hm
      rw [hp] at rest hparent ⊢
      cases rest with
      | stop hnone =>
        rw [get?_some, hm] at hnone
        cases hnone
      | node _ _ =>
        rw [hparent, List.getLast?_reverse]
        rfl

/-! ## 3. Names are nodes -/

/-- What stands in a slot of a node is a node. -/
theorem IsTree.lt_size_of_mem_slots (h : a.IsTree root) {r : Ref} {form : Form Nat} {k : Nat}
    (hr : a.form? r = some form) (hk : some k ∈ form.slots) : k < a.size := by
  obtain ⟨n, hn, rfl⟩ := Option.map_eq_some_iff.mp hr
  obtain ⟨i, rfl, hi⟩ := Option.bind_eq_some_iff.mp hn
  obtain ⟨_, m, hm, _⟩ := h.linked i n k hi hk
  exact lt_size_of_node? hm

/-- A function is assigned to a node. -/
theorem IsTree.lt_size_of_targetBelow (h : a.IsTree root) {r : Ref} {k : Nat}
    (hk : a.targetBelow r = some k) : k < a.size := by
  unfold targetBelow at hk
  split at hk
  · rename_i hr
    exact h.lt_size_of_mem_slots hr (by rw [hk]; exact List.mem_cons_self)
  · rename_i hr
    exact h.lt_size_of_mem_slots hr (by rw [hk]; exact List.mem_cons_self)
  · cases hk

/-- **What names a function is a node**: it stands in a slot of the function or of the node before
    it. -/
theorem IsTree.lt_size_of_nameAlong (h : a.IsTree root) {above : Ref} {p : List Nat} {k : Nat}
    (hk : a.nameAlong above p = some k) : k < a.size := by
  induction p generalizing above with
  | nil => cases hk
  | cons i p ih =>
    rw [nameAlong] at hk
    split at hk
    · exact ih hk
    · split at hk
      · rename_i hform
        cases hk
        exact h.lt_size_of_mem_slots hform List.mem_cons_self
      · exact h.lt_size_of_targetBelow hk
      · cases hk

end Arena

/-! ## 4. Documents -/

/-- **The upward search for the enclosing function is the search from above.** From the root one
    way leads down to each node, and the search finds what names the last function on it; what it
    finds is a node of the document. -/
theorem ofJson_enclosingName_from_above {v : Json} {d : Document}
    (h : (Document.ofJson v).value = .ok d) {i : Nat} (hi : i < d.arena.size) :
    (∃ path, (∀ p, d.arena.Descends d.root i p ↔ p = path) ∧
      (d.arena.enclosingName (some i)).value = d.arena.nameAlong none path) ∧
    ∀ k, (d.arena.enclosingName (some i)).value = some k → k < d.arena.size := by
  have htree := (ofJson_forest h).isTree
  have hlast := htree.last
  obtain ⟨n, hn⟩ := htree.exists_node? (i := i) (by omega)
  obtain ⟨l, hl, _⟩ := htree.exists_climbs hn
  have hname := htree.enclosingName_eq_nameAlong hl i n rfl hn
  refine ⟨⟨l.reverse, fun p => htree.descends_iff hn hl, hname⟩, fun k hk => ?_⟩
  rw [hname] at hk
  exact htree.lt_size_of_nameAlong hk

/-- The call of `f` stands in a function that is named by the left side of its assignment. -/
theorem goHandler_enclosingName_from_above :
    (Document.ofJson goHandler).value = .ok goHandlerLoaded ∧
    goHandlerLoaded.arena.Descends 12 6 [12, 11, 10, 9, 8, 6] ∧
    (goHandlerLoaded.arena.enclosingName (some 6)).value =
      goHandlerLoaded.arena.nameAlong none [12, 11, 10, 9, 8, 6] ∧
    goHandlerLoaded.arena.nameAlong none [12, 11, 10, 9, 8, 6] = some 2 := by
  have hway : goHandlerLoaded.arena.Descends 12 6 [12, 11, 10, 9, 8, 6] :=
    .child rfl (c := 11) (by decide) (.child rfl (c := 10) (by decide)
      (.child rfl (c := 9) (by decide) (.child rfl (c := 8) (by decide)
        (.child rfl (c := 6) (by decide) (.here rfl)))))
  obtain ⟨⟨path, hpath, hname⟩, _⟩ :=
    ofJson_enclosingName_from_above ofJson_goHandler (i := 6) (by decide)
  rw [← (hpath _).mp hway] at hname
  exact ⟨ofJson_goHandler, hway, hname, by decide⟩

end CallNames
