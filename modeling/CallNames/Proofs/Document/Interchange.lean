import CallNames.Proofs.Document.Run
import CallNames.Proofs.Document.Tree

/-!
# Objects that loading cannot tell apart

Loading sees an object only through a few fields, and a child only through what loading the child
does. So an object may be exchanged for another one without any trace.

* `Json.Alike`: two values in the same field, of which loading sees no difference: they are the
  same, or nodes that are loaded alike, or arrays that differ in one such node;
* `Source.Alike`: two objects with such values **in every field that is read of their kind**;
* `loadNode_eq_of_alike`: objects that are alike are loaded alike, in every state, whether loading
  succeeds or not.
-/

namespace CallNames

variable {load : Json → Load Nat}

/-! ## 1. Values -/

/-- Two nodes that are loaded alike. -/
structure Json.Twins (load : Json → Load Nat) (v w : Json) : Prop where
  left : isNode v = true
  right : isNode w = true
  loads : load v = load w

/-- **Values of a field that loading cannot tell apart.** -/
inductive Json.Alike (load : Json → Load Nat) : Json → Json → Prop where
  | same (v : Json) : Alike load v v
  | node {v w : Json} (h : Twins load v w) : Alike load v w
  | entry (before after : List Json) {v w : Json} (h : Twins load v w)
      (hload : load (.arr (before ++ v :: after)) = load (.arr (before ++ w :: after))) :
      Alike load (.arr (before ++ v :: after)) (.arr (before ++ w :: after))

theorem Json.exists_fields_of_isNode {v : Json} (h : isNode v = true) :
    ∃ fields, v = .obj fields := by
  obtain ⟨_, fields, hv, _⟩ := Json.isNode_iff.mp h
  exact ⟨fields, hv⟩

/-- Twins are objects. -/
theorem Json.Twins.exists_fields {v w : Json} (h : Twins load v w) :
    ∃ fields fields', v = .obj fields ∧ w = .obj fields' := by
  obtain ⟨fields, hv⟩ := exists_fields_of_isNode h.left
  obtain ⟨fields', hw⟩ := exists_fields_of_isNode h.right
  exact ⟨fields, fields', hv, hw⟩

theorem Json.Alike.rel_refl (o : Option Json) : Option.Rel (Alike load) o o := by
  cases o with
  | none => exact .none
  | some v => exact .some (.same v)

/-- **Values that are alike are the same, or two objects, or two arrays.** -/
theorem Json.Alike.rel_cases {o o' : Option Json} (h : Option.Rel (Alike load) o o') :
    o = o' ∨ (∃ fs fs', o = some (.obj fs) ∧ o' = some (.obj fs')) ∨
      ∃ xs ys, o = some (.arr xs) ∧ o' = some (.arr ys) := by
  cases h with
  | none => exact .inl rfl
  | some h =>
    cases h with
    | same => exact .inl rfl
    | node h =>
      obtain ⟨fs, fs', rfl, rfl⟩ := h.exists_fields
      exact .inr (.inl ⟨fs, fs', rfl, rfl⟩)
    | entry => exact .inr (.inr ⟨_, _, rfl, rfl⟩)

/-- What looks neither into objects nor into arrays reads the same off values that are alike. -/
theorem Json.Alike.read_eq {β : Type} {o o' : Option Json} (h : Option.Rel (Alike load) o o')
    (f : Option Json → β) (hobj : ∀ fs fs', f (some (.obj fs)) = f (some (.obj fs')))
    (harr : ∀ xs ys, f (some (.arr xs)) = f (some (.arr ys))) : f o = f o' := by
  rcases rel_cases h with rfl | ⟨fs, fs', rfl, rfl⟩ | ⟨xs, ys, rfl, rfl⟩
  · rfl
  · exact hobj fs fs'
  · exact harr xs ys

/-- The two offsets in an array. -/
def rangeOf? : Option Json → Option Span
  | some (.arr [pos, stop]) => span? pos stop
  | _ => none

/-- Only the offsets among the entries count for a range. -/
theorem rangeOf?_congr {xs ys : List Json} (h : xs.map offset? = ys.map offset?) :
    rangeOf? (some (.arr xs)) = rangeOf? (some (.arr ys)) := by
  have hlength : xs.length = ys.length := by
    have hmap := congrArg List.length h
    rwa [List.length_map, List.length_map] at hmap
  match xs, ys, hlength, h with
  | [], [], _, _ => rfl
  | [_], [_], _, _ => rfl
  | [a, b], [c, d], _, h =>
    obtain ⟨hpos, hstop⟩ := List.cons.inj h
    show span? a b = span? c d
    unfold span?
    rw [hpos, (List.cons.inj hstop).1]
  | _ :: _ :: _ :: _, _ :: _ :: _ :: _, _, _ => rfl

theorem Json.Twins.offset?_eq {v w : Json} (h : Twins load v w) : offset? v = offset? w := by
  obtain ⟨_, _, rfl, rfl⟩ := h.exists_fields
  rfl

theorem Json.Alike.rangeOf?_eq {o o' : Option Json} (h : Option.Rel (Alike load) o o') :
    rangeOf? o = rangeOf? o' := by
  cases h with
  | none => rfl
  | some h =>
    cases h with
    | same => rfl
    | node h =>
      obtain ⟨_, _, rfl, rfl⟩ := h.exists_fields
      rfl
    | entry before after h _ =>
      refine rangeOf?_congr ?_
      rw [List.map_append, List.map_append, List.map_cons, List.map_cons, h.offset?_eq]

/-! ## 2. Demands -/

/-- What is loaded alike is loaded alike behind the same step. -/
theorem Demand.load_child_congr {v w : Json} (h : load v = load w) (step : Step) :
    (Demand.child step v).load load = (Demand.child step w).load load := by
  show Load.within step (some <$> load v) = Load.within step (some <$> load w)
  rw [h]

/-- A node in a list of children asks to be loaded. -/
theorem Demand.ofEntry_of_isNode {v : Json} (h : isNode v = true) (holes : Bool) (step : Step) :
    ofEntry holes step v = .child step v := by
  obtain ⟨fields, rfl⟩ := Json.exists_fields_of_isNode h
  rfl

/-- **Slots with values that are alike are loaded alike.** -/
theorem Json.Alike.slotDemands_eq {o o' : Option Json} (h : Option.Rel (Alike load) o o')
    (rule : Rule) (key : String) :
    (rule.slotDemands key o).map (Demand.load load) =
      (rule.slotDemands key o').map (Demand.load load) := by
  have hentries : ∀ (holes : Bool) (before after : List Json) {v w : Json}, Twins load v w →
      (Demand.ofEntries holes key (before ++ v :: after)).map (Demand.load load) =
        (Demand.ofEntries holes key (before ++ w :: after)).map (Demand.load load) := by
    intro holes before after v w hvw
    unfold Demand.ofEntries
    rw [List.zipIdx_append, List.zipIdx_append, List.zipIdx_cons, List.zipIdx_cons]
    simp only [List.map_append, List.map_cons, Demand.ofEntry_of_isNode hvw.left,
      Demand.ofEntry_of_isNode hvw.right, Demand.load_child_congr hvw.loads]
  cases h with
  | none => rfl
  | some h =>
    cases h with
    | same => rfl
    | node h =>
      have hchild := Demand.load_child_congr h.loads ⟨key, none⟩
      obtain ⟨_, _, rfl, rfl⟩ := h.exists_fields
      cases rule with
      | child | optionalChild => exact congrArg (fun act => [act]) hchild
      | _ => rfl
    | entry before after h hload =>
      have hchild := Demand.load_child_congr hload ⟨key, none⟩
      cases rule with
      | child | optionalChild => exact congrArg (fun act => [act]) hchild
      | children holes => exact hentries holes before after h
      | optionalChildren => exact hentries false before after h
      | _ => rfl

/-- The sites of values that are alike are loaded alike. -/
theorem Json.Alike.childSites_eq {v w : Json} (h : Alike load v w) (key : String) :
    ((childSites (key, v)).map fun site => (Demand.child site.1 site.2).load load) =
      (childSites (key, w)).map fun site => (Demand.child site.1 site.2).load load := by
  cases h with
  | same => rfl
  | node h =>
    have hchild := Demand.load_child_congr h.loads ⟨key, none⟩
    have hleft := h.left
    have hright := h.right
    obtain ⟨fs, fs', rfl, rfl⟩ := h.exists_fields
    rw [childSites_of_not_array (by intro _ e; cases e), if_pos hleft,
      childSites_of_not_array (by intro _ e; cases e), if_pos hright]
    exact congrArg (fun act => [act]) hchild
  | entry before after h _ =>
    unfold childSites
    simp only [List.zipIdx_append, List.zipIdx_cons, List.filter_append, List.map_append,
      List.filter_cons, h.left, h.right, if_true, List.map_cons,
      Demand.load_child_congr h.loads]

/-! ## 3. Objects -/

namespace Source

section Readers

variable {src src' : Source} {key : String}
  (h : Option.Rel (Json.Alike load) (src.field? key) (src'.field? key))

include h

theorem flagAt_eq : src.flagAt key = src'.flagAt key := by
  unfold flagAt
  rcases Json.Alike.rel_cases h with e | ⟨_, _, e, e'⟩ | ⟨_, _, e, e'⟩
  · rw [e]
  · rw [e, e']
  · rw [e, e']

theorem textAt_eq (missing : String) : src.textAt key missing = src'.textAt key missing := by
  unfold textAt
  rcases Json.Alike.rel_cases h with e | ⟨_, _, e, e'⟩ | ⟨_, _, e, e'⟩
  · rw [e]
  · rw [e, e']
  · rw [e, e']

theorem keywordAt_eq : src.keywordAt key = src'.keywordAt key := by
  unfold keywordAt
  rw [textAt_eq h]

end Readers

/-- The named offsets are read one by one. -/
theorem named?_eq_bind (src : Source) :
    src.named? = ((src.field? "start").bind offset?).bind fun pos =>
      ((src.field? "end").bind offset?).map fun stop => ⟨pos, stop⟩ := by
  unfold named?
  cases src.field? "start" with
  | none => rfl
  | some x =>
    cases src.field? "end" with
    | none => simp
    | some y =>
      show span? x y = (offset? x).bind fun pos => (offset? y).map fun stop => ⟨pos, stop⟩
      unfold span?
      cases offset? x <;> cases offset? y <;> rfl

/-- **Objects that loading cannot tell apart.** -/
structure Alike (load : Json → Load Nat) (src src' : Source) : Prop where
  /-- They are of the same type. -/
  typeName : src.typeName = src'.typeName
  /-- What may be offsets is alike. -/
  offsets : ∀ key ∈ ["start", "end", "range"],
    Option.Rel (Json.Alike load) (src.field? key) (src'.field? key)
  /-- The fields of their type are alike. -/
  fields : ∀ field ∈ src.kind.schema,
    Option.Rel (Json.Alike load) (src.field? field.1) (src'.field? field.1)
  /-- Literals have the same text. -/
  literal : src.kind = .literal → src.literalText = src'.literalText
  /-- Whatever looks like a node in an unmodelled object is loaded alike. -/
  sites : src.kind = .other →
    src.siteDemands.map (Demand.load load) = src'.siteDemands.map (Demand.load load)

namespace Alike

variable {src src' : Source}

theorem kind (h : src.Alike load src') : src.kind = src'.kind := by
  unfold Source.kind
  rw [h.typeName]

theorem span_eq (h : src.Alike load src') : src.span = src'.span := by
  have hpos := Json.Alike.read_eq (h.offsets "start" (by simp)) (fun o => o.bind offset?)
    (fun _ _ => rfl) (fun _ _ => rfl)
  have hstop := Json.Alike.read_eq (h.offsets "end" (by simp)) (fun o => o.bind offset?)
    (fun _ _ => rfl) (fun _ _ => rfl)
  have hranged : src.ranged? = src'.ranged? := Json.Alike.rangeOf?_eq (h.offsets "range" (by simp))
  have hnamed : src.named? = src'.named? := by rw [named?_eq_bind, named?_eq_bind, hpos, hstop]
  show (src.named?.or src.ranged?).getD {} = (src'.named?.or src'.ranged?).getD {}
  rw [hnamed, hranged]

/-- A field has the same defect and asks for the same. -/
theorem fieldDemands_eq (h : src.Alike load src') {field : String × Rule}
    (hfield : field ∈ src.kind.schema) :
    (src.fieldDemands field).map (Demand.load load) =
      (src'.fieldDemands field).map (Demand.load load) := by
  have hvalue := h.fields field hfield
  have hdefect : src.fieldDefect? field = src'.fieldDefect? field := by
    unfold fieldDefect?
    rw [← h.kind]
    refine Json.Alike.read_eq hvalue (field.2.defect? src.kind field.1) ?_ ?_
    · intro fs fs'
      cases field.2 <;> rfl
    · intro xs ys
      cases field.2 <;> rfl
  unfold fieldDemands
  rw [← hdefect]
  cases src.fieldDefect? field with
  | none => exact Json.Alike.slotDemands_eq hvalue field.2 field.1
  | some d => rfl

/-- **Objects that are alike ask for the same**, demand by demand. -/
theorem demands_eq (h : src.Alike load src') :
    src.demands.map (Demand.load load) = src'.demands.map (Demand.load load) := by
  by_cases hk : src.kind = .other
  · rw [demands_of_other hk, demands_of_other (h.kind ▸ hk)]
    exact h.sites hk
  · rw [demands_of_modelled hk, demands_of_modelled (h.kind ▸ hk), ← h.kind, List.map_flatMap,
      List.map_flatMap]
    exact List.flatMap_congr fun field hfield => h.fieldDemands_eq hfield

/-- Objects that are alike stand for forms of the same shape. -/
theorem refill_eq (h : src.Alike load src') (rs : List Ref) :
    src.outline.refill rs = src'.outline.refill rs := by
  have hliteral := h.literal
  rw [literalText_eq, literalText_eq] at hliteral
  unfold outline
  rw [kindNamed_eq, kindNamed_eq, ← h.kind, ← h.typeName]
  cases hk : src.kind with
  | variableDeclaration =>
    have hkind := keywordAt_eq (h.fields ("kind", .keyword) (by simp [hk, Kind.schema]))
    simp only [Form.refill, hkind]
  | identifier =>
    have hname := textAt_eq (h.fields ("name", .name) (by simp [hk, Kind.schema])) ""
    simp only [Form.refill, hname]
  | literal => simp only [Form.refill, hliteral hk]
  | memberExpression | property =>
    have hcomputed := flagAt_eq (h.fields ("computed", .flag) (by simp [hk, Kind.schema]))
    simp only [Form.refill, hcomputed]
  | assignmentExpression =>
    have hoperator := textAt_eq (h.fields ("operator", .operator) (by simp [hk, Kind.schema])) "="
    simp only [Form.refill, hoperator]
  | _ => rfl

end Alike

end Source

/-! ## 4. Loading -/

/-- Demands are met one by one, and only what is done for each of them counts. -/
theorem mapM_load_congr {ds ds' : List Demand}
    (h : ds.map (Demand.load load) = ds'.map (Demand.load load)) :
    ds.mapM (Demand.load load) = ds'.mapM (Demand.load load) := by
  have hid : ∀ es : List Demand,
      es.mapM (Demand.load load) = (es.map (Demand.load load)).mapM id := by
    intro es
    rw [List.mapM_map]
    rfl
  rw [hid, hid, h]

/-- **Objects that are alike are loaded alike**, in every state. -/
theorem loadNode_eq_of_alike {v w : Json} {src src' : Source} {room : Nat}
    (hv : v.source? = some src) (hw : w.source? = some src')
    (h : src.Alike (loadNode room) src') : loadNode (room + 1) v = loadNode (room + 1) w := by
  have hannounce : src.announce = src'.announce := by
    unfold Source.announce
    rw [h.kind, h.typeName]
  have hrefill : src.outline.refill = (src'.outline.refill : List Ref → Form Nat) :=
    funext h.refill_eq
  rw [loadNode_of_source room hv, loadNode_of_source room hw, Source.readForm_eq,
    Source.readForm_eq, hannounce, hrefill, mapM_load_congr h.demands_eq, h.span_eq]

end CallNames
