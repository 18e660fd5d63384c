import CallNames.Document.Load

/-!
# What loading asks of an object

The fields of a node are read in a fixed order, each by a rule of its own. Both are data here:

* `Kind.schema` lists the fields that a kind of node has, **in the order in which they are read**,
  and `Rule` says what each of them may hold;
* `Source.demands` is what an object then demands of loading, one demand after the other: a child
  to load, a slot to leave empty, or a defect at which loading ends.
-/

namespace CallNames

/-! ## 1. Rules -/

/-- What a field of a node may hold. -/
inductive Rule where
  /-- A node, which must be there. -/
  | child
  /-- A node, which may be missing or `null`. -/
  | optionalChild
  /-- An array of nodes, where `null` may stand for a node if there may be holes. -/
  | children (holes : Bool)
  /-- An array of nodes, which may be missing. -/
  | optionalChildren
  /-- A truth value, which may be missing. -/
  | flag
  /-- A text, which may be missing. -/
  | operator
  /-- A text, which must be there and not be empty. -/
  | name
  /-- The keyword of a declaration, which may be missing. -/
  | keyword
deriving DecidableEq, Repr

/-- **The fields of a kind of node, in the order in which they are read.** -/
def Kind.schema : Kind → List (String × Rule)
  | .program => [("body", .children false)]
  | .expressionStatement => [("expression", .child)]
  | .blockStatement => [("body", .children false)]
  | .returnStatement => [("argument", .optionalChild)]
  | .variableDeclaration => [("kind", .keyword), ("declarations", .children false)]
  | .variableDeclarator => [("id", .child), ("init", .optionalChild)]
  | .identifier => [("name", .name)]
  | .thisExpression => []
  | .literal => []
  | .memberExpression => [("object", .child), ("property", .child), ("computed", .flag)]
  | .callExpression => [("callee", .child), ("arguments", .optionalChildren)]
  | .newExpression => [("callee", .child), ("arguments", .optionalChildren)]
  | .functionExpression => [("id", .optionalChild), ("params", .children false), ("body", .child)]
  | .functionDeclaration => [("id", .optionalChild), ("params", .children false), ("body", .child)]
  | .arrowFunctionExpression =>
    [("id", .optionalChild), ("params", .children false), ("body", .child)]
  | .assignmentExpression => [("operator", .operator), ("left", .child), ("right", .child)]
  | .property => [("key", .child), ("value", .child), ("computed", .flag)]
  | .objectExpression => [("properties", .children false)]
  | .arrayExpression => [("elements", .children true)]
  | .conditionalExpression => [("test", .child), ("consequent", .child), ("alternate", .child)]
  | .other => []

/-- A modelled kind has no name but its own. -/
theorem Kind.name_ofName {s : String} (h : Kind.ofName s ≠ .other) : (Kind.ofName s).name = s := by
  unfold ofName at h ⊢
  cases hk : modelled.find? fun k => k.name = s with
  | none =>
    rw [hk] at h
    exact absurd rfl h
  | some k =>
    have hname := List.find?_some hk
    exact of_decide_eq_true hname

/-! ## 2. Objects -/

namespace Json

/-- An object with a type name. -/
def IsTyped (v : Json) (typeName : String) (fields : Fields) : Prop :=
  v = .obj fields ∧ fields.lookup "type" = some (.str typeName)

/-- **The object with a type name that a value is**, if it is one. -/
def source? : Json → Option Source
  | .obj fields => ((fields.lookup "type").bind text?).map fun typeName => ⟨typeName, fields⟩
  | _ => none

theorem text?_eq_some_iff {v : Json} {s : String} : v.text? = some s ↔ v = .str s := by
  cases v <;> simp [text?]

theorem source?_eq_some_iff {v : Json} {src : Source} :
    v.source? = some src ↔ v.IsTyped src.typeName src.fields := by
  unfold IsTyped
  constructor
  · intro h
    cases v with
    | obj fields =>
      obtain ⟨name, hname, rfl⟩ := Option.map_eq_some_iff.mp h
      obtain ⟨w, hw, hs⟩ := Option.bind_eq_some_iff.mp hname
      rw [text?_eq_some_iff.mp hs] at hw
      exact ⟨rfl, hw⟩
    | _ => cases h
  · intro h
    rw [h.1, source?, h.2]
    rfl

/-- What looks like a node is an object with a type name. -/
theorem isNode_iff {v : Json} : isNode v = true ↔ ∃ typeName fields, v.IsTyped typeName fields := by
  unfold isNode
  constructor
  · intro h
    cases v with
    | obj fields =>
      split at h
      · rename_i name hf
        exact ⟨name, fields, rfl, hf⟩
      · cases h
    | _ => cases h
  · intro h
    obtain ⟨name, fields, rfl, hf⟩ := h
    rw [field?, hf]

theorem isNode_eq_isSome (v : Json) : isNode v = v.source?.isSome := by
  rw [Bool.eq_iff_iff, isNode_iff, Option.isSome_iff_exists]
  constructor
  · rintro ⟨typeName, fields, h⟩
    exact ⟨⟨typeName, fields⟩, source?_eq_some_iff.mpr h⟩
  · rintro ⟨src, h⟩
    exact ⟨src.typeName, src.fields, source?_eq_some_iff.mp h⟩

end Json

theorem childSites_of_not_array {key : String} {w : Json} (h : ∀ items, w ≠ .arr items) :
    childSites (key, w) = if isNode w then [(⟨key, none⟩, w)] else [] := by
  unfold childSites
  split
  · rename_i items hw
    exact absurd hw (h items)
  · rfl

/-- **The children of an unmodelled node**: a field that looks like a node, or an entry that
    does. -/
theorem mem_childSites_iff {key : String} {w u : Json} {step : Step} :
    (step, u) ∈ childSites (key, w) ↔ isNode u = true ∧
      ((u = w ∧ step = ⟨key, none⟩) ∨
        ∃ items i, w = .arr items ∧ items[i]? = some u ∧ step = ⟨key, some i⟩) := by
  by_cases harr : ∃ items, w = .arr items
  · obtain ⟨items, rfl⟩ := harr
    show (step, u) ∈ (items.zipIdx.filter fun entry => isNode entry.1).map _ ↔ _
    rw [List.mem_map]
    constructor
    · intro h
      obtain ⟨⟨x, i⟩, hx, e⟩ := h
      obtain ⟨hmem, hnode⟩ := List.mem_filter.mp hx
      cases e
      exact ⟨hnode, .inr ⟨items, i, rfl, List.mem_zipIdx_iff_getElem?.mp hmem, rfl⟩⟩
    · intro h
      obtain ⟨hnode, h⟩ := h
      rcases h with ⟨rfl, _⟩ | ⟨_, i, ⟨⟩, hi, rfl⟩
      · cases hnode
      · exact ⟨(u, i), List.mem_filter.mpr ⟨List.mem_zipIdx_iff_getElem?.mpr hi, hnode⟩, rfl⟩
  · rw [childSites_of_not_array fun items hw => harr ⟨items, hw⟩]
    constructor
    · intro h
      split at h
      · rename_i hnode
        cases List.mem_singleton.mp h
        exact ⟨hnode, .inl ⟨rfl, rfl⟩⟩
      · exact absurd h List.not_mem_nil
    · intro h
      obtain ⟨hnode, h⟩ := h
      rcases h with ⟨rfl, rfl⟩ | ⟨items, _, hw, _⟩
      · rw [if_pos hnode]
        exact List.mem_singleton_self _
      · exact absurd ⟨items, hw⟩ harr

theorem Source.mem_fields_of_field? {src : Source} {key : String} {w : Json}
    (h : src.field? key = some w) : (key, w) ∈ src.fields := by
  obtain ⟨before, after, e, _⟩ := List.lookup_eq_some_iff.mp h
  rw [e]
  exact List.mem_append_right before List.mem_cons_self

/-! ## 3. Demands -/

/-- What loading is asked to do next. -/
inductive Demand where
  /-- To refuse the object. -/
  | defect (d : Defect)
  /-- To refuse an entry that is `null` where no hole may be. -/
  | nullEntry (step : Step)
  /-- To leave a slot empty. -/
  | hole
  /-- To load a child. -/
  | child (step : Step) (v : Json)

namespace Demand

/-- The value that a demand asks to load. -/
def value? : Demand → Option Json
  | .child _ v => some v
  | _ => none

/-- The value that a demand is about, and the step to it. -/
def place? : Demand → Option (Step × Json)
  | .child step v => some (step, v)
  | .nullEntry step => some (step, .null)
  | _ => none

/-- Meets a demand. -/
def load (load : Json → Load Nat) : Demand → Load Ref
  | .defect d => Load.refuse d
  | .nullEntry step => Load.within step (Load.refuse .notANode)
  | .hole => pure none
  | .child step v => Load.within step (some <$> load v)

/-- What meeting a demand leaves in its slot. -/
inductive Met : Demand → Ref → Prop where
  | hole : Met .hole none
  | child (step : Step) (v : Json) (i : Nat) : Met (.child step v) (some i)

/-- Whether a demand can be met, given for which values loading succeeds. -/
def Admits (p : Json → Prop) : Demand → Prop
  | .defect _ => False
  | .nullEntry _ => False
  | .hole => True
  | .child _ v => p v

/-- What an entry of a list of children demands. -/
def ofEntry (holes : Bool) (step : Step) : Json → Demand
  | .null => if holes then .hole else .nullEntry step
  | v => .child step v

/-- What the entries of a list of children demand. -/
def ofEntries (holes : Bool) (key : String) (items : List Json) : List Demand :=
  items.zipIdx.map fun item => ofEntry holes ⟨key, some item.2⟩ item.1

/-- **What an entry can demand.** -/
theorem ofEntry_cases (holes : Bool) (step : Step) (v : Json) :
    (v = .null ∧ holes = true ∧ ofEntry holes step v = .hole) ∨
    (v = .null ∧ holes = false ∧ ofEntry holes step v = .nullEntry step) ∨
    (v ≠ .null ∧ ofEntry holes step v = .child step v) := by
  by_cases hv : v = .null
  · subst hv
    cases holes with
    | true => exact .inl ⟨rfl, rfl, rfl⟩
    | false => exact .inr (.inl ⟨rfl, rfl, rfl⟩)
  · refine .inr (.inr ⟨hv, ?_⟩)
    unfold ofEntry
    split
    · exact absurd rfl hv
    · rfl

end Demand

namespace Rule

/-- **What is wrong with a field by itself**, whatever its children are. -/
def defect? (kind : Kind) (key : String) : Rule → Option Json → Option Defect
  | .child, none => some (.missingField kind key)
  | .child, some .null => some (.missingField kind key)
  | .child, some _ => none
  | .optionalChild, _ => none
  | .children _, none => some (.missingField kind key)
  | .children _, some (.arr _) => none
  | .children _, some _ => some (.invalidField kind key .array)
  | .optionalChildren, none => none
  | .optionalChildren, some (.arr _) => none
  | .optionalChildren, some _ => some (.invalidField kind key .array)
  | .flag, none => none
  | .flag, some (.bool _) => none
  | .flag, some _ => some (.invalidField kind key .boolean)
  | .operator, none => none
  | .operator, some (.str _) => none
  | .operator, some _ => some (.invalidField kind key .string)
  | .name, none => some (.missingField kind key)
  | .name, some (.str s) => if s.isEmpty then some .emptyIdentifier else none
  | .name, some _ => some (.invalidField kind key .string)
  | .keyword, none => none
  | .keyword, some v =>
    match v.text?.bind DeclarationKind.ofKeyword? with
    | some _ => none
    | none => some (.invalidField kind key .declarationKind)

/-- What the slots of a field demand, if nothing is wrong with it by itself. -/
def slotDemands (key : String) : Rule → Option Json → List Demand
  | .child, some v => [.child ⟨key, none⟩ v]
  | .optionalChild, none => [.hole]
  | .optionalChild, some .null => [.hole]
  | .optionalChild, some v => [.child ⟨key, none⟩ v]
  | .children holes, some (.arr items) => Demand.ofEntries holes key items
  | .optionalChildren, some (.arr items) => Demand.ofEntries false key items
  | _, _ => []

/-- **What the slots of a field can demand**: to leave a missing child out, to load a child, or
    what an entry of a list demands. -/
theorem mem_slotDemands_cases {rule : Rule} {key : String} {v : Option Json} {d : Demand}
    (h : d ∈ rule.slotDemands key v) :
    (d = .hole ∧ rule = .optionalChild) ∨
    (∃ w, d = .child ⟨key, none⟩ w ∧ v = some w ∧
      (rule = .child ∨ (rule = .optionalChild ∧ w ≠ .null))) ∨
    (∃ holes items i w, d = Demand.ofEntry holes ⟨key, some i⟩ w ∧ v = some (.arr items) ∧
      items[i]? = some w ∧
      (rule = .children holes ∨ (rule = .optionalChildren ∧ holes = false))) := by
  have hentries : ∀ {holes items}, d ∈ Demand.ofEntries holes key items →
      ∃ i w, d = Demand.ofEntry holes ⟨key, some i⟩ w ∧ items[i]? = some w := by
    intro holes items hmem
    obtain ⟨⟨w, i⟩, hw, e⟩ := List.mem_map.mp hmem
    exact ⟨i, w, e.symm, List.mem_zipIdx_iff_getElem?.mp hw⟩
  unfold slotDemands at h
  split at h
  · exact .inr (.inl ⟨_, List.mem_singleton.mp h, rfl, .inl rfl⟩)
  · exact .inl ⟨List.mem_singleton.mp h, rfl⟩
  · exact .inl ⟨List.mem_singleton.mp h, rfl⟩
  · rename_i hnull
    exact .inr (.inl ⟨_, List.mem_singleton.mp h, rfl, .inr ⟨rfl, hnull⟩⟩)
  · obtain ⟨i, w, hd, hw⟩ := hentries h
    exact .inr (.inr ⟨_, _, i, w, hd, rfl, hw, .inl rfl⟩)
  · obtain ⟨i, w, hd, hw⟩ := hentries h
    exact .inr (.inr ⟨_, _, i, w, hd, rfl, hw, .inr ⟨rfl, rfl⟩⟩)
  · exact absurd h List.not_mem_nil

end Rule

namespace Source

/-- What is wrong with a field of an object by itself. -/
def fieldDefect? (src : Source) (field : String × Rule) : Option Defect :=
  field.2.defect? src.kind field.1 (src.field? field.1)

/-- What a field of an object demands: to refuse the object if the field has a defect of its own,
    else whatever its slots demand. -/
def fieldDemands (src : Source) (field : String × Rule) : List Demand :=
  match src.fieldDefect? field with
  | some d => [.defect d]
  | none => field.2.slotDemands field.1 (src.field? field.1)

/-- What the fields of an unmodelled node demand: whatever looks like a node is loaded. -/
def siteDemands (src : Source) : List Demand :=
  (src.fields.flatMap childSites).map fun site => .child site.1 site.2

/-- **What an object demands of loading, in order.** -/
def demands (src : Source) : List Demand :=
  match src.kind with
  | .other => src.siteDemands
  | kind => kind.schema.flatMap src.fieldDemands

theorem demands_of_modelled {src : Source} (h : src.kind ≠ .other) :
    src.demands = src.kind.schema.flatMap src.fieldDemands := by
  unfold demands
  cases hk : src.kind with
  | other => exact absurd hk h
  | _ => rfl

theorem demands_of_other {src : Source} (h : src.kind = .other) :
    src.demands = src.siteDemands := by
  unfold demands
  rw [h]

/-- **What an object can demand**: to load what looks like a node, to refuse it for one of its
    fields, or what the slots of a field demand. -/
theorem mem_demands_cases {src : Source} {d : Demand} (h : d ∈ src.demands) :
    (src.kind = .other ∧ ∃ key x step w, d = .child step w ∧ (key, x) ∈ src.fields ∧
      (step, w) ∈ childSites (key, x)) ∨
    (src.kind ≠ .other ∧ ∃ key rule, (key, rule) ∈ src.kind.schema ∧
      ((∃ defect, d = .defect defect ∧ src.fieldDefect? (key, rule) = some defect) ∨
        (src.fieldDefect? (key, rule) = none ∧ d ∈ rule.slotDemands key (src.field? key)))) := by
  by_cases hk : src.kind = .other
  · rw [demands_of_other hk] at h
    obtain ⟨⟨step, w⟩, hsite, e⟩ := List.mem_map.mp h
    obtain ⟨⟨key, x⟩, hx, hw⟩ := List.mem_flatMap.mp hsite
    exact .inl ⟨hk, key, x, step, w, e.symm, hx, hw⟩
  · rw [demands_of_modelled hk] at h
    obtain ⟨⟨key, rule⟩, hkey, hfield⟩ := List.mem_flatMap.mp h
    refine .inr ⟨hk, key, rule, hkey, ?_⟩
    unfold fieldDemands at hfield
    split at hfield
    · rename_i defect hdefect
      exact .inl ⟨defect, List.mem_singleton.mp hfield, hdefect⟩
    · rename_i hdefect
      exact .inr ⟨hdefect, hfield⟩

end Source

end CallNames
