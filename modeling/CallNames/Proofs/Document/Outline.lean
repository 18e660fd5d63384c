import CallNames.Proofs.Document.Schema
import CallNames.Proofs.Node.Slots
import Mathlib.Data.List.Forall2

/-!
# Outlines of objects

* `Source.outline` is the form that an object stands for, each child still being the JSON value in
  the field that it comes from; whatever is missing has its default. **It is told by the fields
  alone and shares no rule with the loader**: what the loader makes of a type name, of the text of a
  literal, of a keyword and of the fields of an unmodelled node is shown to be the same
  (`kindNamed_eq`, `literalText_eq`, `keywordAt_of_ofKeyword?`, `map_snd_childSites`);
* `value_demands`: **the slots of the outline are the demands of the object, one by one**, unless
  one of them cannot be met. So the order of the slots is the order of loading.
-/

namespace CallNames

namespace Source

/-! ## 1. Outlines -/

/-- The child in a field; a missing one and `null` are none. -/
def childAt (src : Source) (key : String) : Option Json :=
  match src.field? key with
  | none | some .null => none
  | some v => some v

/-- The children in an array, with an empty slot for each `null`. -/
def childrenAt (src : Source) (key : String) : List (Option Json) :=
  match src.field? key with
  | some (.arr items) => items.map fun v => if v.isNull then none else some v
  | _ => []

/-- A truth value, false if it is missing. -/
def flagAt (src : Source) (key : String) : Bool :=
  match src.field? key with
  | some (.bool b) => b
  | _ => false

/-- A text, with what it is if it is missing. -/
def textAt (src : Source) (key : String) (missing : String) : String :=
  match src.field? key with
  | some (.str s) => s
  | _ => missing

/-- The compact text of a value, empty if it is missing. -/
def compactAt (src : Source) (key : String) : String :=
  ((src.field? key).map Json.compactText).getD ""

/-- The keyword of a declaration, `var` if it is missing. -/
def keywordAt (src : Source) (key : String) : DeclarationKind :=
  match src.textAt key "var" with
  | "let" => .letDecl
  | "const" => .constDecl
  | "using" => .usingDecl
  | "await using" => .awaitUsingDecl
  | _ => .varDecl

/-- The nodes in a field of an unmodelled object: objects with a type name, **one level into
    arrays**. -/
def nodesIn : Json → List Json
  | .arr items => items.filter fun v => v.source?.isSome
  | v => if v.source?.isSome then [v] else []

/-- The kind of node that a type name stands for. -/
def kindNamed : String → Kind
  | "Program" => .program
  | "ExpressionStatement" => .expressionStatement
  | "BlockStatement" => .blockStatement
  | "ReturnStatement" => .returnStatement
  | "VariableDeclaration" => .variableDeclaration
  | "VariableDeclarator" => .variableDeclarator
  | "Identifier" => .identifier
  | "ThisExpression" => .thisExpression
  | "Literal" => .literal
  | "MemberExpression" => .memberExpression
  | "CallExpression" => .callExpression
  | "NewExpression" => .newExpression
  | "FunctionExpression" => .functionExpression
  | "FunctionDeclaration" => .functionDeclaration
  | "ArrowFunctionExpression" => .arrowFunctionExpression
  | "AssignmentExpression" => .assignmentExpression
  | "Property" => .property
  | "ObjectExpression" => .objectExpression
  | "ArrayExpression" => .arrayExpression
  | "ConditionalExpression" => .conditionalExpression
  | _ => .other

/-- **The form that an object stands for**, each child in the field that it comes from. -/
def outline (src : Source) : Form Json :=
  match kindNamed src.typeName with
  | .program => .program (src.childrenAt "body")
  | .expressionStatement => .expressionStatement (src.childAt "expression")
  | .blockStatement => .block (src.childrenAt "body")
  | .returnStatement => .returnStatement (src.childAt "argument")
  | .variableDeclaration => .declaration (src.keywordAt "kind") (src.childrenAt "declarations")
  | .variableDeclarator => .declarator (src.childAt "id") (src.childAt "init")
  | .identifier => .identifier (src.textAt "name" "")
  | .thisExpression => .this
  | .literal => .literal (src.textAt "raw" (src.compactAt "value"))
  | .memberExpression =>
    .member (src.childAt "object") (src.childAt "property") (src.flagAt "computed")
  | .callExpression => .call .call (src.childAt "callee") (src.childrenAt "arguments")
  | .newExpression => .call .construct (src.childAt "callee") (src.childrenAt "arguments")
  | .functionExpression =>
    .function .expression (src.childAt "id") (src.childrenAt "params") (src.childAt "body")
  | .functionDeclaration =>
    .function .declaration (src.childAt "id") (src.childrenAt "params") (src.childAt "body")
  | .arrowFunctionExpression =>
    .function .arrow (src.childAt "id") (src.childrenAt "params") (src.childAt "body")
  | .assignmentExpression =>
    .assignment (src.textAt "operator" "=") (src.childAt "left") (src.childAt "right")
  | .property => .property (src.childAt "key") (src.childAt "value") (src.flagAt "computed")
  | .objectExpression => .object (src.childrenAt "properties")
  | .arrayExpression => .array (src.childrenAt "elements")
  | .conditionalExpression =>
    .conditional (src.childAt "test") (src.childAt "consequent") (src.childAt "alternate")
  | .other => .other src.typeName ((src.fields.flatMap fun field => nodesIn field.2).map some)

/-! ## 2. What the loader makes of the same fields -/

theorem kindNamed_name (k : Kind) : kindNamed k.name = k := by
  cases k <;> rfl

theorem name_kindNamed {s : String} (h : kindNamed s ≠ .other) : (kindNamed s).name = s := by
  unfold kindNamed at h ⊢
  split at h
  case h_21 => exact absurd rfl h
  all_goals rfl

/-- The loader takes a type name for the same kind. -/
theorem kindNamed_eq (src : Source) : kindNamed src.typeName = src.kind := by
  by_cases hnamed : kindNamed src.typeName = .other
  · by_cases hkind : src.kind = .other
    · rw [hnamed, hkind]
    · have hname : src.kind.name = src.typeName := Kind.name_ofName hkind
      rw [← hname, kindNamed_name]
  · have hkind : src.kind = Kind.ofName (kindNamed src.typeName).name := by
      rw [name_kindNamed hnamed]
      rfl
    rw [hkind, Kind.ofName_name]

theorem outline_of_other {src : Source} (h : src.kind = .other) :
    src.outline =
      .other src.typeName ((src.fields.flatMap fun field => nodesIn field.2).map some) := by
  unfold outline
  rw [kindNamed_eq, h]

/-- The loader takes the same text for that of a literal. -/
theorem literalText_eq (src : Source) :
    src.literalText = src.textAt "raw" (src.compactAt "value") := by
  unfold literalText textAt compactAt
  cases src.field? "raw" with
  | none => cases src.field? "value" <;> rfl
  | some v => cases v <;> cases src.field? "value" <;> rfl

/-- A keyword that the loader knows is the same here. -/
theorem keywordAt_of_ofKeyword? {src : Source} {key s : String} {k : DeclarationKind}
    (hs : src.field? key = some (.str s)) (hk : DeclarationKind.ofKeyword? s = some k) :
    src.keywordAt key = k := by
  have hname : k.keyword = s := by
    simpa using List.find?_some hk
  have htext : src.textAt key "var" = k.keyword := by
    rw [textAt, hs, hname]
  rw [keywordAt, htext]
  cases k <;> rfl

/-- The loader finds the same children in a field of an unmodelled object. -/
theorem map_snd_childSites (field : String × Json) :
    (childSites field).map Prod.snd = nodesIn field.2 := by
  obtain ⟨key, v⟩ := field
  by_cases harray : ∃ items, v = .arr items
  · obtain ⟨items, rfl⟩ := harray
    have hsites : (childSites (key, .arr items)).map Prod.snd =
        (items.zipIdx.filter ((fun w => w.source?.isSome) ∘ Prod.fst)).map Prod.fst := by
      unfold childSites
      rw [List.map_map]
      simp only [Json.isNode_eq_isSome]
      rfl
    rw [hsites, ← List.filter_map, List.zipIdx_map_fst]
    rfl
  · have hnodes : nodesIn v = if v.source?.isSome then [v] else [] := by
      unfold nodesIn
      split
      · next items => exact absurd ⟨items, rfl⟩ harray
      · rfl
    rw [childSites_of_not_array fun items hv => harray ⟨items, hv⟩, hnodes, Json.isNode_eq_isSome]
    split <;> rfl

theorem mem_nodesIn_cases {v w : Json} (h : w ∈ nodesIn v) :
    w = v ∨ ∃ items, v = .arr items ∧ w ∈ items := by
  unfold nodesIn at h
  split at h
  · next items => exact .inr ⟨items, rfl, List.mem_of_mem_filter h⟩
  · split at h
    · exact .inl (List.mem_singleton.mp h)
    · exact absurd h List.not_mem_nil

theorem childAt_eq_some_iff {src : Source} {key : String} {w : Json} :
    src.childAt key = some w ↔ src.field? key = some w ∧ w ≠ .null := by
  unfold childAt
  cases src.field? key with
  | none => simp
  | some x =>
    cases x with
    | null =>
      constructor
      · intro h
        cases h
      · intro h
        exact absurd (Option.some.inj h.1).symm h.2
    | _ =>
      constructor
      · intro h
        cases h
        exact ⟨rfl, fun hw => (by cases hw)⟩
      · intro h
        exact h.1

theorem mem_childrenAt_iff {src : Source} {key : String} {r : Option Json} :
    r ∈ src.childrenAt key ↔
      ∃ items, src.field? key = some (.arr items) ∧
        ∃ w ∈ items, (w = .null ∧ r = none) ∨ (w ≠ .null ∧ r = some w) := by
  have hentry : ∀ w : Json, (if w.isNull then none else some w) = r ↔
      (w = .null ∧ r = none) ∨ (w ≠ .null ∧ r = some w) := by
    intro w
    cases w <;> simp [Json.isNull, eq_comm]
  unfold childrenAt
  constructor
  · intro h
    split at h
    · rename_i items hf
      obtain ⟨w, hw, e⟩ := List.mem_map.mp h
      exact ⟨items, hf, w, hw, (hentry w).mp e⟩
    · exact absurd h List.not_mem_nil
  · intro h
    obtain ⟨items, hf, w, hw, e⟩ := h
    rw [hf]
    exact List.mem_map.mpr ⟨w, hw, (hentry w).mpr e⟩

/-! ## 3. Outlines and demands -/

/-- The slots that one field fills. -/
def slotsOf (src : Source) (field : String × Rule) : List (Option Json) :=
  match field.2 with
  | .child | .optionalChild => [src.childAt field.1]
  | .children _ | .optionalChildren => src.childrenAt field.1
  | .flag | .operator | .name | .keyword => []

/-- The slots of an outline are filled field by field, in the order of the schema. -/
theorem slots_outline {src : Source} (h : src.kind ≠ .other) :
    src.outline.slots = src.kind.schema.flatMap src.slotsOf := by
  unfold outline
  rw [kindNamed_eq]
  cases hk : src.kind with
  | other => exact absurd hk h
  | _ => simp [Kind.schema, slotsOf, Form.slots]

theorem value_ofEntry (holes : Bool) (step : Step) (v : Json) :
    (Demand.ofEntry holes step v).value? = if v.isNull then none else some v := by
  cases v <;> cases holes <;> rfl

theorem value_ofEntries (holes : Bool) (key : String) (items : List Json) :
    (Demand.ofEntries holes key items).map Demand.value? =
      items.map fun v => if v.isNull then none else some v := by
  unfold Demand.ofEntries
  rw [List.map_map]
  have hentry : Demand.value? ∘ (fun item : Json × Nat =>
      Demand.ofEntry holes ⟨key, some item.2⟩ item.1) =
        (fun v => if v.isNull then none else some v) ∘ Prod.fst := by
    funext item
    exact value_ofEntry holes ⟨key, some item.2⟩ item.1
  rw [hentry, ← List.map_map, List.zipIdx_map_fst]

/-- The demands of a field can be met if it has no defect of its own and the demands of its slots
    can be met. -/
theorem admits_fieldDemands_iff {src : Source} {field : String × Rule} {p : Json → Prop} :
    (∀ d ∈ src.fieldDemands field, d.Admits p) ↔
      src.fieldDefect? field = none ∧
        ∀ d ∈ field.2.slotDemands field.1 (src.field? field.1), d.Admits p := by
  unfold fieldDemands
  cases src.fieldDefect? field with
  | none => simp
  | some d => simp [Demand.Admits]

/-- What a field without a defect asks to load is what its slots hold. -/
theorem value_slotDemands {src : Source} {field : String × Rule}
    (h : src.fieldDefect? field = none) :
    (field.2.slotDemands field.1 (src.field? field.1)).map Demand.value? = src.slotsOf field := by
  obtain ⟨key, rule⟩ := field
  unfold fieldDefect? at h
  unfold slotsOf childAt childrenAt
  cases rule with
  | child =>
    cases hf : src.field? key with
    | none => simp [hf, Rule.defect?] at h
    | some v =>
      cases v with
      | null => simp [hf, Rule.defect?] at h
      | _ => rfl
  | optionalChild =>
    cases src.field? key with
    | none => rfl
    | some v => cases v <;> rfl
  | children holes =>
    cases src.field? key with
    | none => rfl
    | some v =>
      cases v with
      | arr items => exact value_ofEntries holes key items
      | _ => rfl
  | optionalChildren =>
    cases src.field? key with
    | none => rfl
    | some v =>
      cases v with
      | arr items => exact value_ofEntries false key items
      | _ => rfl
  | flag | operator | name | keyword => rfl

/-- **The slots of the outline are the demands of the object, one by one**, unless one of them
    cannot be met. -/
theorem value_demands {src : Source} {p : Json → Prop} (h : ∀ d ∈ src.demands, d.Admits p) :
    src.demands.map Demand.value? = src.outline.slots := by
  by_cases hk : src.kind = .other
  · have hnodes : ((src.fields.flatMap childSites).map Prod.snd) =
        src.fields.flatMap fun field => nodesIn field.2 := by
      rw [List.map_flatMap]
      exact List.flatMap_congr fun field _ => map_snd_childSites field
    rw [demands_of_other hk, outline_of_other hk, Form.slots, ← hnodes, siteDemands, List.map_map,
      List.map_map]
    rfl
  · rw [slots_outline hk]
    rw [demands_of_modelled hk] at h ⊢
    rw [List.map_flatMap]
    refine List.flatMap_congr fun field hfield => ?_
    have hf := admits_fieldDemands_iff.mp fun d hd => h d (List.mem_flatMap.mpr ⟨field, hfield, hd⟩)
    rw [← value_slotDemands hf.1, fieldDemands, hf.1]

/-! ## 4. Met demands -/

/-- Demands that are met can be met. -/
theorem admits_of_met {ds : List Demand} {rs : List Ref} (h : List.Forall₂ Demand.Met ds rs) :
    ∀ d ∈ ds, d.Admits fun _ => True := by
  induction h with
  | nil => exact fun _ hd => absurd hd List.not_mem_nil
  | cons hd _ ih =>
    intro d hmem
    rcases List.mem_cons.mp hmem with rfl | hmem
    · cases hd <;> trivial
    · exact ih d hmem

/-- What meeting the demands of an object yields fits into its outline. -/
theorem length_of_met {src : Source} {rs : List Ref} (h : List.Forall₂ Demand.Met src.demands rs) :
    rs.length = src.outline.slots.length := by
  rw [← value_demands (admits_of_met h), List.length_map]
  exact h.length_eq.symm

end Source

end CallNames
