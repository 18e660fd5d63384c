import CallNames.Proofs.Document.Run

/-!
# Which documents are accepted

* `Rule.Allows` says which values a field may have, `Conforms` which objects are nodes, both given
  which values are nodes one level below;
* `ValidAt` is the grammar of documents: a node of level `d` lies inside `d - 1` other nodes, and
  **no node is deeper than the limit**;
* `ofJson_isOk_iff`: a document is loaded exactly if it is a node of level 1.
-/

namespace CallNames

/-! ## 1. The grammar -/

/-- **What the value of a field may be**: `none` stands for a missing field. -/
def Rule.Allows (valid : Json → Prop) : Rule → Option Json → Prop
  | .child, v => ∃ w, v = some w ∧ w ≠ .null ∧ valid w
  | .optionalChild, v => v = none ∨ v = some .null ∨ ∃ w, v = some w ∧ w ≠ .null ∧ valid w
  | .children holes, v =>
    ∃ items, v = some (.arr items) ∧
      ∀ w ∈ items, (holes = true ∧ w = .null) ∨ (w ≠ .null ∧ valid w)
  | .optionalChildren, v =>
    v = none ∨ ∃ items, v = some (.arr items) ∧ ∀ w ∈ items, w ≠ .null ∧ valid w
  | .flag, v => v = none ∨ ∃ b, v = some (.bool b)
  | .operator, v => v = none ∨ ∃ s, v = some (.str s)
  | .name, v => ∃ s, v = some (.str s) ∧ s ≠ ""
  | .keyword, v =>
    v = none ∨ ∃ s ∈ ["var", "let", "const", "using", "await using"], v = some (.str s)

/-- **Which values are nodes**, given which values are nodes one level below: objects with a type
    name whose fields keep to the rules of their type. An object of an unmodelled type may hold
    anything, but what looks like a node in one of its fields, or in an array there, must be one. -/
def Conforms (valid : Json → Prop) (v : Json) : Prop :=
  ∃ typeName fields, v.IsTyped typeName fields ∧
    (∀ field ∈ (Kind.ofName typeName).schema, field.2.Allows valid (fields.lookup field.1)) ∧
    (Kind.ofName typeName = .other → ∀ key w, (key, w) ∈ fields →
      ((∃ t fs, w.IsTyped t fs) → valid w) ∧
      ∀ items, w = .arr items → ∀ u ∈ items, (∃ t fs, u.IsTyped t fs) → valid u)

/-- **A node of a level**: it lies inside one node less than its level says, and its children are
    nodes of the next level. -/
def ValidAt (level : Nat) (v : Json) : Prop :=
  if _h : level ≤ nodeLimit then Conforms (ValidAt (level + 1)) v else False
termination_by nodeLimit + 1 - level

theorem validAt_iff {level : Nat} {v : Json} :
    ValidAt level v ↔ level ≤ nodeLimit ∧ Conforms (ValidAt (level + 1)) v := by
  rw [ValidAt]
  by_cases h : level ≤ nodeLimit
  · rw [dif_pos h]
    exact ⟨fun hv => ⟨h, hv⟩, fun hv => hv.2⟩
  · rw [dif_neg h]
    exact ⟨fun hv => hv.elim, fun hv => h hv.1⟩

/-! ## 2. Fields -/

/-- A keyword is found exactly if it is one of the five. -/
theorem isSome_ofKeyword?_iff (s : String) :
    (DeclarationKind.ofKeyword? s).isSome = true ↔
      s ∈ ["var", "let", "const", "using", "await using"] := by
  unfold DeclarationKind.ofKeyword?
  rw [List.find?_isSome]
  simp [DeclarationKind.all, DeclarationKind.keyword, eq_comm]

/-- The demands of the entries of an array can be met if each entry is a node, or a hole where
    there may be one. -/
theorem admits_ofEntries_iff {valid : Json → Prop} {holes : Bool} {key : String}
    {items : List Json} :
    (∀ d ∈ Demand.ofEntries holes key items, d.Admits valid) ↔
      ∀ w ∈ items, (holes = true ∧ w = .null) ∨ (w ≠ .null ∧ valid w) := by
  have hentry : ∀ (i : Nat) (w : Json), (Demand.ofEntry holes ⟨key, some i⟩ w).Admits valid ↔
      (holes = true ∧ w = .null) ∨ (w ≠ .null ∧ valid w) := by
    intro i w
    cases w <;> cases holes <;> simp [Demand.ofEntry, Demand.Admits]
  unfold Demand.ofEntries
  constructor
  · intro h w hw
    obtain ⟨i, hi⟩ := List.mem_iff_getElem?.mp hw
    refine (hentry i w).mp (h _ (List.mem_map.mpr ⟨(w, i), ?_, rfl⟩))
    exact List.mem_zipIdx_iff_getElem?.mpr hi
  · intro h d hd
    obtain ⟨⟨w, i⟩, hw, rfl⟩ := List.mem_map.mp hd
    have hmem : w ∈ items := List.mem_of_getElem? (List.mem_zipIdx_iff_getElem?.mp hw)
    exact (hentry i w).mpr (h w hmem)

/-- **A field meets its rule exactly if its demands can be met.** -/
theorem admits_fieldDemands_iff_allows {src : Source} {field : String × Rule}
    {valid : Json → Prop} :
    (∀ d ∈ src.fieldDemands field, d.Admits valid) ↔
      field.2.Allows valid (src.field? field.1) := by
  rw [Source.admits_fieldDemands_iff]
  unfold Source.fieldDefect?
  obtain ⟨key, rule⟩ := field
  generalize src.field? key = v
  cases rule with
  | child | optionalChild | flag | operator | name =>
    cases v with
    | none => simp [Rule.Allows, Rule.defect?, Rule.slotDemands, Demand.Admits]
    | some w => cases w <;> simp [Rule.Allows, Rule.defect?, Rule.slotDemands, Demand.Admits]
  | children | optionalChildren =>
    cases v with
    | none => simp [Rule.Allows, Rule.defect?, Rule.slotDemands]
    | some w =>
      cases w with
      | arr items => simp [Rule.Allows, Rule.defect?, Rule.slotDemands, admits_ofEntries_iff]
      | _ => simp [Rule.Allows, Rule.defect?]
  | keyword =>
    cases v with
    | none => simp [Rule.Allows, Rule.defect?, Rule.slotDemands]
    | some w =>
      cases w with
      | str s =>
        have hs := isSome_ofKeyword?_iff s
        simp only [Rule.Allows, Rule.defect?, Rule.slotDemands, Json.text?, Option.bind_some]
        cases hk : DeclarationKind.ofKeyword? s with
        | none =>
          rw [hk] at hs
          simpa using hs
        | some kind =>
          rw [hk] at hs
          simpa using hs
      | _ => simp [Rule.Allows, Rule.defect?, Json.text?]

/-! ## 3. Objects -/

/-- The demands of an unmodelled object can be met if all that looks like a node is one. -/
theorem admits_siteDemands_iff {src : Source} {valid : Json → Prop} :
    (∀ d ∈ src.siteDemands, d.Admits valid) ↔
      ∀ key w, (key, w) ∈ src.fields →
        ((∃ t fs, w.IsTyped t fs) → valid w) ∧
        ∀ items, w = .arr items → ∀ u ∈ items, (∃ t fs, u.IsTyped t fs) → valid u := by
  have hsites : (∀ d ∈ src.siteDemands, d.Admits valid) ↔
      ∀ key w step u, (key, w) ∈ src.fields → (step, u) ∈ childSites (key, w) → valid u := by
    unfold Source.siteDemands
    constructor
    · intro h key w step u hw hu
      exact h (.child step u) (List.mem_map.mpr
        ⟨(step, u), List.mem_flatMap.mpr ⟨(key, w), hw, hu⟩, rfl⟩)
    · intro h d hd
      obtain ⟨⟨step, u⟩, hsite, rfl⟩ := List.mem_map.mp hd
      obtain ⟨⟨key, w⟩, hw, hu⟩ := List.mem_flatMap.mp hsite
      exact h key w step u hw hu
  rw [hsites]
  constructor
  · intro h key w hw
    constructor
    · intro hnode
      exact h key w _ w hw (mem_childSites_iff.mpr ⟨Json.isNode_iff.mpr hnode, .inl ⟨rfl, rfl⟩⟩)
    · intro items harr u hu hnode
      obtain ⟨i, hi⟩ := List.mem_iff_getElem?.mp hu
      exact h key w _ u hw
        (mem_childSites_iff.mpr ⟨Json.isNode_iff.mpr hnode, .inr ⟨items, i, harr, hi, rfl⟩⟩)
  · intro h key w step u hw hu
    obtain ⟨hnode, hplace⟩ := mem_childSites_iff.mp hu
    rcases hplace with ⟨rfl, _⟩ | ⟨items, i, harr, hi, _⟩
    · exact (h key u hw).1 (Json.isNode_iff.mp hnode)
    · exact (h key w hw).2 items harr u (List.mem_of_getElem? hi) (Json.isNode_iff.mp hnode)

/-- **An object is a node exactly if its demands can be met.** -/
theorem admits_demands_iff_conforms {v : Json} {src : Source} {valid : Json → Prop}
    (h : v.source? = some src) :
    (∀ d ∈ src.demands, d.Admits valid) ↔ Conforms valid v := by
  have hv := Json.source?_eq_some_iff.mp h
  have hconforms : Conforms valid v ↔
      (∀ field ∈ src.kind.schema, field.2.Allows valid (src.field? field.1)) ∧
      (src.kind = .other → ∀ d ∈ src.siteDemands, d.Admits valid) := by
    rw [admits_siteDemands_iff]
    constructor
    · intro hc
      obtain ⟨name, fields, hname, hfields, hother⟩ := hc
      have hsrc : v.source? = some ⟨name, fields⟩ := Json.source?_eq_some_iff.mpr hname
      rw [h] at hsrc
      cases hsrc
      exact ⟨hfields, hother⟩
    · intro hc
      exact ⟨src.typeName, src.fields, hv, hc.1, hc.2⟩
  rw [hconforms]
  by_cases hk : src.kind = .other
  · rw [Source.demands_of_other hk, hk]
    exact ⟨fun hd => ⟨fun _ hf => absurd hf List.not_mem_nil, fun _ => hd⟩, fun hd => hd.2 rfl⟩
  · rw [Source.demands_of_modelled hk]
    constructor
    · intro hd
      refine ⟨fun field hf => ?_, fun hother => absurd hother hk⟩
      exact admits_fieldDemands_iff_allows.mp fun d hmem =>
        hd d (List.mem_flatMap.mpr ⟨field, hf, hmem⟩)
    · intro hc d hd
      obtain ⟨field, hf, hmem⟩ := List.mem_flatMap.mp hd
      exact admits_fieldDemands_iff_allows.mpr (hc.1 field hf) d hmem

/-! ## 4. Loading -/

/-- The demands of a list are met, in any state, exactly if each of them can be met. -/
theorem exists_loads_iff {load : Json → Load Nat} {valid : Json → Prop}
    (hload : ∀ v s, (∃ i t, load v s = .ok i t) ↔ valid v) (ds : List Demand) (s : LoadState) :
    (∃ rs t, Loads load ds s rs t) ↔ ∀ d ∈ ds, d.Admits valid := by
  constructor
  · intro h
    obtain ⟨rs, t, h⟩ := h
    induction h with
    | done => exact fun _ hd => absurd hd List.not_mem_nil
    | hole _ ih =>
      intro d hd
      rcases List.mem_cons.mp hd with rfl | hd
      · trivial
      · exact ih d hd
    | child first _ ih =>
      intro d hd
      rcases List.mem_cons.mp hd with rfl | hd
      · exact (hload _ _).mp ⟨_, _, first⟩
      · exact ih d hd
  · intro h
    induction ds generalizing s with
    | nil => exact ⟨[], s, .done s⟩
    | cons d ds ih =>
      have hd := h d List.mem_cons_self
      have hds : ∀ d' ∈ ds, d'.Admits valid := fun d' hd' => h d' (List.mem_cons_of_mem d hd')
      cases d with
      | defect => exact hd.elim
      | nullEntry => exact hd.elim
      | hole =>
        obtain ⟨rs, t, hrun⟩ := ih s hds
        exact ⟨none :: rs, t, .hole hrun⟩
      | child step v =>
        obtain ⟨i, t, hi⟩ := (hload v (s.enter step)).mpr hd
        obtain ⟨rs, u, hrun⟩ := ih t.leave hds
        exact ⟨some i :: rs, u, .child hi hrun⟩

/-- **A node is loaded, in any state, exactly if it is valid at its level.** -/
theorem loadNode_isOk_iff {room : Nat} (hroom : room ≤ nodeLimit) (v : Json) (s : LoadState) :
    (∃ i t, loadNode room v s = .ok i t) ↔ ValidAt (nodeLimit + 1 - room) v := by
  induction room generalizing v s with
  | zero =>
    rw [validAt_iff]
    constructor
    · intro h
      obtain ⟨_, _, ⟨⟩⟩ := h
    · intro h
      omega
  | succ k ih =>
    have hlevel : nodeLimit + 1 - (k + 1) + 1 = nodeLimit + 1 - k := by omega
    rw [validAt_iff, hlevel]
    have hchildren := ih (by omega)
    constructor
    · intro h
      obtain ⟨i, t, h⟩ := h
      obtain ⟨_, src, rs, u, ⟨⟩, hv, hrun, _, _⟩ := loadNode_eq_ok_iff.mp h
      have hadmits := (exists_loads_iff hchildren _ _).mp ⟨rs, u, hrun⟩
      exact ⟨by omega, (admits_demands_iff_conforms hv).mp hadmits⟩
    · intro h
      have hv : ∃ src, v.source? = some src := by
        obtain ⟨_, name, fields, hname, _⟩ := h
        exact ⟨⟨name, fields⟩, Json.source?_eq_some_iff.mpr hname⟩
      obtain ⟨src, hv⟩ := hv
      have hadmits := (admits_demands_iff_conforms hv).mpr h.2
      obtain ⟨rs, u, hrun⟩ := (exists_loads_iff hchildren _ (s.announced src)).mpr hadmits
      exact ⟨_, _, loadNode_eq_ok_iff.mpr ⟨k, src, rs, u, rfl, hv, hrun, rfl, rfl⟩⟩

/-- **A document is loaded exactly if it is a node of level 1.** -/
theorem ofJson_isOk_iff (v : Json) : (∃ d, (Document.ofJson v).value = .ok d) ↔ ValidAt 1 v := by
  have hroot := loadNode_isOk_iff (Nat.le_refl nodeLimit) v {}
  rw [Nat.add_sub_cancel_left] at hroot
  rw [← hroot]
  constructor
  · intro h
    obtain ⟨d, hd⟩ := h
    obtain ⟨t, ht, _⟩ := Document.ofJson_eq_ok_iff.mp hd
    exact ⟨d.root, t, ht⟩
  · intro h
    obtain ⟨i, t, ht⟩ := h
    exact ⟨⟨t.arena, i⟩, Document.ofJson_eq_ok_iff.mpr ⟨t, ht, rfl⟩⟩

end CallNames
