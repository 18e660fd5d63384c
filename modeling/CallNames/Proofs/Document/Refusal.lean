import CallNames.Proofs.Document.Acceptance
import CallNames.Proofs.Document.Place

/-!
# Refusals point at defects

The path to the value being loaded is part of the loading state: it grows on the way to a child and
shrinks on the way back, whether the child could be loaded or not.

* `loadNode_path`: a node that is loaded leaves the path as it was, so **whatever was loaded before
  a refusal does not show in its path**;
* `Json.Shows` says what it means that a value has a defect;
* `ofJson_refusal`: the path of a refusal leads to a value that has the defect it names.
-/

namespace CallNames

/-! ## 1. Defects of values -/

/-- The values that a field should have held. -/
def Expected.Fits : Expected → Json → Prop
  | .array, v => ∃ items, v = .arr items
  | .boolean, v => ∃ b, v = .bool b
  | .string, v => ∃ s, v = .str s
  | .declarationKind, v => ∃ s ∈ ["var", "let", "const", "using", "await using"], v = .str s

namespace Rule

/-- A field must be there. -/
def Needed : Rule → Prop
  | .child | .children _ | .name => True
  | .optionalChild | .optionalChildren | .flag | .operator | .keyword => False

/-- What a field should hold if it is there, as far as it is not a single child. -/
def expected? : Rule → Option Expected
  | .child | .optionalChild => none
  | .children _ | .optionalChildren => some .array
  | .flag => some .boolean
  | .operator | .name => some .string
  | .keyword => some .declarationKind

end Rule

/-- **A value shows a defect.** It lies inside `depth` nodes, of which `limit` are allowed. -/
def Json.Shows (u : Json) (limit depth : Nat) : Defect → Prop
  | .notANode => ∀ fields, u ≠ .obj fields
  | .missingType => ∃ fields, u = .obj fields ∧ ∀ name, fields.lookup "type" ≠ some (.str name)
  | .missingField kind key => ∃ fields rule, u.IsTyped kind.name fields ∧
      (key, rule) ∈ kind.schema ∧ rule.Needed ∧
      (fields.lookup key = none ∨ (rule = .child ∧ fields.lookup key = some .null))
  | .invalidField kind key expected => ∃ fields rule w, u.IsTyped kind.name fields ∧
      (key, rule) ∈ kind.schema ∧ rule.expected? = some expected ∧
      fields.lookup key = some w ∧ ¬ expected.Fits w
  | .emptyIdentifier => ∃ fields, u.IsTyped "Identifier" fields ∧
      fields.lookup "name" = some (.str "")
  | .tooDeep => depth = limit

/-- Seen from one node further out, there is one node more around a value and one more allowed. -/
theorem Json.Shows.succ {u : Json} {limit depth : Nat} {d : Defect} (h : u.Shows limit depth d) :
    u.Shows (limit + 1) (depth + 1) d := by
  cases d with
  | tooDeep => exact congrArg Nat.succ h
  | _ => exact h

/-! ## 2. Defects of fields -/

/-- Only identifiers have a field whose name must not be empty. -/
theorem Kind.eq_identifier {kind : Kind} {key : String} (h : (key, .name) ∈ kind.schema) :
    kind = .identifier ∧ key = "name" := by
  cases kind <;> simp [schema] at h
  exact ⟨rfl, h⟩

/-- **What the defect of a field says about its value.** -/
theorem Rule.defect?_cases {rule : Rule} {kind : Kind} {key : String} {v : Option Json} {d : Defect}
    (h : rule.defect? kind key v = some d) :
    (d = .missingField kind key ∧ rule.Needed ∧ (v = none ∨ (rule = .child ∧ v = some .null))) ∨
    (∃ expected w, d = .invalidField kind key expected ∧ rule.expected? = some expected ∧
      v = some w ∧ ¬ expected.Fits w) ∨
    (d = .emptyIdentifier ∧ rule = .name ∧ v = some (.str "")) := by
  -- a field is missing, or it is there and of no shape that its rule knows
  cases v with
  | none =>
    cases rule with
    | child | children | name =>
      cases h
      exact .inl ⟨rfl, trivial, .inl rfl⟩
    | optionalChild | optionalChildren | flag | operator | keyword => cases h
  | some w =>
    cases rule with
    | optionalChild => cases h
    | child =>
      cases w with
      | null =>
        cases h
        exact .inl ⟨rfl, trivial, .inr ⟨rfl, rfl⟩⟩
      | _ => cases h
    | children | optionalChildren =>
      cases w with
      | arr => cases h
      | _ =>
        cases h
        exact .inr (.inl ⟨.array, _, rfl, rfl, rfl, fun hfits => nomatch hfits⟩)
    | flag =>
      cases w with
      | bool => cases h
      | _ =>
        cases h
        exact .inr (.inl ⟨.boolean, _, rfl, rfl, rfl, fun hfits => nomatch hfits⟩)
    | operator =>
      cases w with
      | str => cases h
      | _ =>
        cases h
        exact .inr (.inl ⟨.string, _, rfl, rfl, rfl, fun hfits => nomatch hfits⟩)
    | name =>
      cases w with
      | str s =>
        obtain ⟨hs, e⟩ := Option.ite_none_right_eq_some.mp h
        cases e
        rw [String.isEmpty_iff.mp hs]
        exact .inr (.inr ⟨rfl, rfl, rfl⟩)
      | _ =>
        cases h
        exact .inr (.inl ⟨.string, _, rfl, rfl, rfl, fun hfits => nomatch hfits⟩)
    | keyword =>
      rw [defect?] at h
      cases hkeyword : w.text?.bind DeclarationKind.ofKeyword? with
      | some kind' =>
        rw [hkeyword] at h
        cases h
      | none =>
        rw [hkeyword] at h
        cases h
        refine .inr (.inl ⟨.declarationKind, w, rfl, rfl, rfl, fun hfits => ?_⟩)
        obtain ⟨s, hs, rfl⟩ := hfits
        have hsome := (isSome_ofKeyword?_iff s).mpr hs
        rw [show DeclarationKind.ofKeyword? s = none from hkeyword] at hsome
        cases hsome

/-- What the slots of a field demand is no defect of the object. -/
theorem Rule.defect_not_mem_slotDemands {rule : Rule} {key : String} {v : Option Json}
    {d : Defect} : .defect d ∉ rule.slotDemands key v := by
  intro h
  rcases mem_slotDemands_cases h with ⟨⟨⟩, _⟩ | ⟨_, ⟨⟩, _⟩ | ⟨holes, _, i, w, hentry, _⟩
  rcases Demand.ofEntry_cases holes ⟨key, some i⟩ w with ⟨_, _, e⟩ | ⟨_, _, e⟩ | ⟨_, e⟩
  · cases hentry.trans e
  · cases hentry.trans e
  · cases hentry.trans e

/-- **An object that is refused for itself shows the defect.** -/
theorem Source.shows_of_mem_demands {v : Json} {src : Source} {d : Defect} (limit depth : Nat)
    (hv : v.source? = some src) (hd : .defect d ∈ src.demands) : v.Shows limit depth d := by
  rcases mem_demands_cases hd with ⟨_, _, _, _, _, ⟨⟩, _⟩ |
    ⟨hk, key, rule, hkey, ⟨_, ⟨⟩, hdefect⟩ | ⟨_, hslot⟩⟩
  · have htyped : v.IsTyped src.kind.name src.fields := by
      have hname : src.kind.name = src.typeName := Kind.name_ofName hk
      rw [hname]
      exact Json.source?_eq_some_iff.mp hv
    rcases Rule.defect?_cases hdefect with ⟨rfl, hneeded, hvalue⟩ |
      ⟨expected, w, rfl, hexpected, hw, hfits⟩ | ⟨rfl, rfl, hname⟩
    · exact ⟨src.fields, rule, htyped, hkey, hneeded, hvalue⟩
    · exact ⟨src.fields, rule, w, htyped, hkey, hexpected, hw, hfits⟩
    · obtain ⟨hkind, rfl⟩ := Kind.eq_identifier hkey
      rw [hkind] at htyped
      exact ⟨src.fields, htyped, hname⟩
  · exact absurd hslot Rule.defect_not_mem_slotDemands

/-! ## 3. The path of a refusal -/

/-- Along a run of demands the path comes back to where it was. -/
theorem Loads.path {load : Json → Load Nat}
    (hload : ∀ v s i t, load v s = .ok i t → t.path = s.path)
    {ds : List Demand} {s t : LoadState} {rs : List Ref} (h : Loads load ds s rs t) :
    t.path = s.path := by
  induction h with
  | done => rfl
  | hole _ ih => exact ih
  | child first _ ih =>
    rw [ih, LoadState.path_leave, hload _ _ _ _ first, LoadState.path_enter, List.tail_cons]

/-- **A node that is loaded leaves the path as it was.** -/
theorem loadNode_path {room : Nat} {v : Json} {s t : LoadState} {i : Nat}
    (h : loadNode room v s = .ok i t) : t.path = s.path := by
  induction room generalizing v s i t with
  | zero => cases h
  | succ k ih =>
    obtain ⟨_, src, rs, u, ⟨⟩, _, hrun, _, rfl⟩ := loadNode_eq_ok_iff.mp h
    rw [LoadState.path_stored, hrun.path fun _ _ _ _ h => ih h, LoadState.path_announced]

/-- **A refusal goes from the value being loaded to a value that shows the defect**, along the end
    of its path. -/
theorem loadNode_refusal {room : Nat} {v : Json} {s t : LoadState} {e : DocumentError}
    (h : loadNode room v s = .error e t) :
    ∃ p u, e.path = s.path.reverse ++ p ∧ v.Reaches p u ∧ u.Shows room p.length e.defect := by
  induction room generalizing v s e t with
  | zero =>
    cases h
    exact ⟨[], v, (List.append_nil _).symm, .here v, rfl⟩
  | succ k ih =>
    rcases loadNode_eq_error h with ⟨hroom, _⟩ | ⟨_, hobj, rfl, _⟩ | ⟨fields, hobj, htype, rfl, _⟩ |
      ⟨_, src, before, d, after, rs, u, ⟨⟩, hv, hds, hrun, hd⟩
    · cases hroom
    · exact ⟨[], v, (List.append_nil _).symm, .here v, hobj⟩
    · exact ⟨[], v, (List.append_nil _).symm, .here v, fields, hobj, htype⟩
    · have hmem : d ∈ src.demands := by
        rw [hds]
        exact List.mem_append_right before List.mem_cons_self
      -- the siblings that were loaded before the refusal have left the path
      have hpath : u.path = s.path := by
        rw [hrun.path fun _ _ _ _ h => loadNode_path h, LoadState.path_announced]
      cases d with
      | hole => cases hd
      | defect d =>
        cases hd
        refine ⟨[], v, ?_, .here v, Source.shows_of_mem_demands _ _ hv hmem⟩
        rw [hpath, List.append_nil]
      | nullEntry step =>
        have hstep : Load.within step (Load.refuse .notANode : Load Ref) u = .error e t := hd
        obtain ⟨_, hrefuse, _⟩ := Load.within_eq_error_iff.mp hstep
        cases hrefuse
        refine ⟨[step], .null, ?_, .child hv (Source.child_of_mem_demands hmem rfl) (.here _), ?_⟩
        · rw [LoadState.path_enter, hpath, List.reverse_cons]
        · exact fun _ hobj => (by cases hobj)
      | child step w =>
        obtain ⟨_, hw, _⟩ := Load.within_eq_error_iff.mp hd
        obtain ⟨p, x, hp, hreach, hshows⟩ := ih (Load.map_eq_error_iff.mp hw)
        refine ⟨step :: p, x, ?_, .child hv (Source.child_of_mem_demands hmem rfl) hreach,
          hshows.succ⟩
        rw [hp, LoadState.path_enter, hpath, List.reverse_cons, List.append_assoc,
          List.singleton_append]

/-! ## 4. Documents -/

/-- **A refusal points at a defect.** Its path, read segment by segment as it is written, leads to a
    value of the document; the loader comes there by steps to children only; and the value shows the
    defect that the refusal names. Nothing else is refused: the text of a document plays no part
    once it is read. -/
theorem ofJson_refusal {v : Json} {e : DocumentError}
    (h : (Document.ofJson v).value = .error e) :
    (∃ u, Segment.write e.path.segments = e.path.render ∧ v.Leads e.path.segments u ∧
        v.Reaches e.path u ∧ u.Shows 1024 e.path.length e.defect) ∧
      ∀ r, (Document.ofJson v).value.mapError LoadError.document = .error r →
        r ≠ .tooNested ∧ ∀ d, r ≠ .text d := by
  constructor
  · obtain ⟨t, ht⟩ := Document.ofJson_eq_error_iff.mp h
    obtain ⟨p, u, hp, hreach, hshows⟩ := loadNode_refusal ht
    have hpath : e.path = p := hp
    rw [hpath]
    exact ⟨u, p.write_segments, hreach.leads, hreach, hshows⟩
  · intro r hr
    rw [h] at hr
    cases hr
    exact ⟨fun e => (by cases e), fun _ e => (by cases e)⟩

/-- The document of `f(); let x = [, ]`, with a nameless identifier behind the hole. -/
def namelessElement : Json :=
  .obj [("type", .str "Program"), ("body", .arr
    [.obj [("type", .str "ExpressionStatement"),
      ("expression", .obj [("type", .str "CallExpression"),
        ("callee", .obj [("type", .str "Identifier"), ("name", .str "f")])])],
     .obj [("type", .str "VariableDeclaration"), ("kind", .str "let"), ("declarations", .arr
      [.obj [("type", .str "VariableDeclarator"),
        ("id", .obj [("type", .str "Identifier"), ("name", .str "x")]),
        ("init", .obj [("type", .str "ArrayExpression"),
          ("elements", .arr [.null, .obj [("type", .str "Identifier"), ("name", .str "")]])])]])]])]

/-- Why it is refused. -/
def namelessElementRefused : DocumentError where
  path := [⟨"body", some 1⟩, ⟨"declarations", some 0⟩, ⟨"init", none⟩, ⟨"elements", some 1⟩]
  defect := .emptyIdentifier

theorem ofJson_namelessElement :
    (Document.ofJson namelessElement).value = .error namelessElementRefused := by
  decide +kernel

/-- What was loaded before leaves no trace in the path. -/
theorem namelessElement_refusal :
    namelessElementRefused.path.render = "body[1].declarations[0].init.elements[1]" ∧
    (∃ u, Segment.write namelessElementRefused.path.segments =
          namelessElementRefused.path.render ∧
        namelessElement.Leads namelessElementRefused.path.segments u ∧
        namelessElement.Reaches namelessElementRefused.path u ∧
        u.Shows 1024 4 .emptyIdentifier) ∧
      ∀ r, (Document.ofJson namelessElement).value.mapError LoadError.document = .error r →
        r ≠ .tooNested ∧ ∀ d, r ≠ .text d :=
  ⟨by decide +kernel, ofJson_refusal ofJson_namelessElement⟩

end CallNames
