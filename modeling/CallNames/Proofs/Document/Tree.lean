import CallNames.Proofs.Document.Outline

/-!
# Documents as trees

A document can be read without any arena, node by node along its fields.

* `Tree`: a node with its offsets, whose form holds the trees of its children;
* `Json.tree?` reads a value that way: **the tree of a node is its outline with the tree of each
  child in the place of the child** (`tree?_of_source`);
* `Source.HasSpan` says which offsets a node has.
-/

namespace CallNames

/-- A syntax tree. -/
inductive Tree where
  | node (span : Span) (form : Form Tree)

/-! ## 1. Children are smaller -/

/-- The value of a field is smaller than the object. -/
theorem sizeOf_lt_of_mem_fields {key : String} {w : Json} {fields : Fields}
    (h : (key, w) ∈ fields) : sizeOf w < sizeOf fields := by
  have hpair := List.sizeOf_lt_of_mem h
  rw [Prod.mk.sizeOf_spec] at hpair
  omega

/-- An entry of an array in a field is smaller than the object. -/
theorem sizeOf_lt_of_mem_items {key : String} {w : Json} {items : List Json} {fields : Fields}
    (h : (key, .arr items) ∈ fields) (hw : w ∈ items) : sizeOf w < sizeOf fields := by
  have harr := sizeOf_lt_of_mem_fields h
  rw [Json.arr.sizeOf_spec] at harr
  have hitem := List.sizeOf_lt_of_mem hw
  omega

namespace Source

variable {src : Source}

/-- **A child of an object is smaller than the object.** -/
theorem sizeOf_lt_of_mem_outline {w : Json} (h : some w ∈ src.outline.slots) :
    sizeOf w < sizeOf src.fields := by
  by_cases hk : src.kind = .other
  · rw [outline_of_other hk] at h
    obtain ⟨u, hu, ⟨⟩⟩ := List.mem_map.mp h
    obtain ⟨⟨key, x⟩, hx, hw⟩ := List.mem_flatMap.mp hu
    rcases mem_nodesIn_cases hw with rfl | ⟨items, rfl, hitem⟩
    · exact sizeOf_lt_of_mem_fields hx
    · exact sizeOf_lt_of_mem_items hx hitem
  · rw [slots_outline hk] at h
    obtain ⟨⟨key, rule⟩, _, hw⟩ := List.mem_flatMap.mp h
    unfold slotsOf at hw
    cases rule with
    | child | optionalChild =>
      have hchild := childAt_eq_some_iff.mp (List.mem_singleton.mp hw).symm
      exact sizeOf_lt_of_mem_fields (mem_fields_of_field? hchild.1)
    | children | optionalChildren =>
      obtain ⟨items, hf, x, hx, hplace⟩ := mem_childrenAt_iff.mp hw
      rcases hplace with ⟨_, ⟨⟩⟩ | ⟨_, ⟨⟩⟩
      exact sizeOf_lt_of_mem_items (mem_fields_of_field? hf) hx
    | flag | operator | name | keyword => exact absurd hw List.not_mem_nil

end Source

/-! ## 2. Reading a tree -/

/-- **Reads a value as a tree**: each child is read in its place, and nothing is read from a value
    that is no object with a type name. -/
def Json.tree? (v : Json) : Option Tree :=
  match _h : v.source? with
  | none => none
  | some src => (src.outline.traverseMem? fun w _hw => w.tree?).map (Tree.node src.span)
termination_by sizeOf v
decreasing_by
  have hv := (Json.source?_eq_some_iff.mp _h).1
  have hw := Source.sizeOf_lt_of_mem_outline _hw
  rw [hv, Json.obj.sizeOf_spec]
  omega

/-- The tree of a node is its outline with a tree for each child. -/
theorem Json.tree?_of_source {v : Json} {src : Source} (h : v.source? = some src) :
    v.tree? = (src.outline.traverse? Json.tree?).map (Tree.node src.span) := by
  rw [Json.tree?]
  split
  · rename_i hnone
    rw [h] at hnone
    cases hnone
  · rename_i src' hsome
    rw [h] at hsome
    cases hsome
    rw [Form.traverseMem?_eq_traverse?]

/-! ## 3. Offsets -/

namespace Source

/-- A value is an offset. -/
def IsOffset (v : Json) (n : Nat) : Prop := v = .num (.int n) ∧ n < 0x100000000

/-- The offsets are those of the fields `start` and `end`. -/
def Named (src : Source) (s : Span) : Prop :=
  ∃ x y, src.field? "start" = some x ∧ src.field? "end" = some y ∧
    IsOffset x s.pos ∧ IsOffset y s.stop

/-- The offsets are the two entries of the field `range`. -/
def Ranged (src : Source) (s : Span) : Prop :=
  ∃ x y, src.field? "range" = some (.arr [x, y]) ∧ IsOffset x s.pos ∧ IsOffset y s.stop

/-- **The offsets of a node**: both from `start` and `end`, or else both from `range`, or else
    both 0. -/
inductive HasSpan (src : Source) : Span → Prop where
  | named {s : Span} (h : src.Named s) : HasSpan src s
  | ranged {s : Span} (hnamed : ∀ s', ¬ src.Named s') (h : src.Ranged s) : HasSpan src s
  | unknown (hnamed : ∀ s', ¬ src.Named s') (hranged : ∀ s', ¬ src.Ranged s') :
      HasSpan src ⟨0, 0⟩

theorem offset?_eq_some_iff {v : Json} {n : Nat} : offset? v = some n ↔ IsOffset v n := by
  have hnat : v.nat? = some n ↔ v = .num (.int n) := by
    constructor
    · intro h
      unfold Json.nat? at h
      split at h
      · cases h
        rfl
      · cases h
    · intro h
      rw [h]
      rfl
  unfold offset? IsOffset
  rw [← hnat]
  cases v.nat? with
  | none => exact ⟨fun h => (by cases h), fun h => (by cases h.1)⟩
  | some m =>
    rw [Option.bind_some, Option.ite_none_right_eq_some]
    constructor
    · intro h
      cases h.2
      exact ⟨rfl, h.1⟩
    · intro h
      cases h.1
      exact ⟨h.2, rfl⟩

theorem span?_eq_some_iff {x y : Json} {s : Span} :
    span? x y = some s ↔ IsOffset x s.pos ∧ IsOffset y s.stop := by
  rw [← offset?_eq_some_iff, ← offset?_eq_some_iff]
  unfold span?
  cases offset? x with
  | none => exact ⟨fun h => (by cases h), fun h => (by cases h.1)⟩
  | some pos =>
    cases offset? y with
    | none => exact ⟨fun h => (by cases h), fun h => (by cases h.2)⟩
    | some stop =>
      constructor
      · intro h
        cases h
        exact ⟨rfl, rfl⟩
      · intro h
        cases h.1
        cases h.2
        rfl

/-- The offsets in the fields `start` and `end`. -/
def named? (src : Source) : Option Span :=
  match src.field? "start", src.field? "end" with
  | some pos, some stop => span? pos stop
  | _, _ => none

/-- The offsets in the field `range`. -/
def ranged? (src : Source) : Option Span :=
  match src.field? "range" with
  | some (.arr [pos, stop]) => span? pos stop
  | _ => none

theorem named?_eq_some_iff {src : Source} {s : Span} : src.named? = some s ↔ src.Named s := by
  unfold named? Named
  cases src.field? "start" with
  | none => simp
  | some x =>
    cases src.field? "end" with
    | none => simp
    | some y => simp [span?_eq_some_iff]

theorem ranged?_eq_some_iff {src : Source} {s : Span} : src.ranged? = some s ↔ src.Ranged s := by
  unfold ranged? Ranged
  split
  · rename_i x y hf
    simp [hf, span?_eq_some_iff]
  · rename_i hf
    constructor
    · intro h
      cases h
    · intro h
      obtain ⟨x, y, hxy, _⟩ := h
      exact absurd hxy (hf x y)

/-- The offsets that a node is given are those that it has. -/
theorem hasSpan_span (src : Source) : src.HasSpan src.span := by
  show src.HasSpan ((src.named?.or src.ranged?).getD {})
  cases hn : src.named? with
  | some s => exact .named (named?_eq_some_iff.mp hn)
  | none =>
    have hnamed : ∀ s', ¬ src.Named s' := by
      intro s' h
      rw [named?_eq_some_iff.mpr h] at hn
      cases hn
    cases hr : src.ranged? with
    | some s => exact .ranged hnamed (ranged?_eq_some_iff.mp hr)
    | none =>
      refine .unknown hnamed fun s' h => ?_
      rw [ranged?_eq_some_iff.mpr h] at hr
      cases hr

end Source

end CallNames
