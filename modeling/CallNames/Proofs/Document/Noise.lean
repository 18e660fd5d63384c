import CallNames.Proofs.Document.Interchange
import CallNames.Proofs.Document.Place
import Mathlib.Logic.Relation

/-!
# Noise in a document

Documents carry more than what is loaded: comments, locations, fields of other tools.

* `Kind.Noise` lists the changes of an object that are noise. **A modelled object is read by the
  names of its fields, an unmodelled one in their order**, so the two allow different changes;
* `Json.Edit` is such a change in one node of a document, at any depth;
* `Edit.twins`: an edited node is loaded as before, in every state and with any room, so also the
  defect that is found first stays the same;
* `ofJson_eq_of_edits`: any number of edits leaves the outcome as it is.
-/

namespace CallNames

/-! ## 1. Edits -/

/-- Fields with a field between them, which may also be missing. -/
def withField (before : Fields) (key : String) (v : Option Json) (after : Fields) : Fields :=
  before ++ v.toList.map (fun w => (key, w)) ++ after

/-- The fields that are read of every node. -/
def commonKeys : List String := ["type", "start", "end", "range"]

/-- **The fields that are read of a node of a modelled kind.** -/
def Kind.readKeys (kind : Kind) : List String :=
  commonKeys ++ kind.schema.map Prod.fst ++ if kind = .literal then ["raw", "value"] else []

/-- Neither an object with a type name nor an array with such an object among its entries. -/
def Json.Inert (v : Json) : Prop :=
  (¬ ∃ t fs, v.IsTyped t fs) ∧ ∀ items, v = .arr items → ∀ u ∈ items, ¬ ∃ t fs, u.IsTyped t fs

/-- **Noise in an object** of a kind. -/
inductive Kind.Noise (kind : Kind) : Fields → Fields → Prop where
  /-- The fields of a modelled object, which have different names, are put into another order. -/
  | reorder {fields fields' : Fields} (hkind : kind ≠ .other)
      (hkeys : (fields.map Prod.fst).Nodup) (h : fields.Perm fields') : Noise kind fields fields'
  /-- A field that is not read is added to a modelled object, removed from it or changed. -/
  | unread {key : String} (before after : Fields) (old new : Option Json) (hkind : kind ≠ .other)
      (hkey : key ∉ kind.readKeys) :
      Noise kind (withField before key old after) (withField before key new after)
  /-- A field without nodes is added to an unmodelled object, removed from it or changed. -/
  | inert {key : String} (before after : Fields) (old new : Option Json) (hkind : kind = .other)
      (hkey : key ∉ commonKeys) (hold : ∀ v ∈ old, v.Inert) (hnew : ∀ v ∈ new, v.Inert) :
      Noise kind (withField before key old after) (withField before key new after)

/-- The same fields with `y` for `x` behind a step. -/
inductive Replaced (x y : Json) : Step → Fields → Fields → Prop where
  | field (key : String) (before after : Fields) :
      Replaced x y ⟨key, none⟩ (before ++ (key, x) :: after) (before ++ (key, y) :: after)
  | entry (key : String) (before after : Fields) (front back : List Json) :
      Replaced x y ⟨key, some front.length⟩ (before ++ (key, .arr (front ++ x :: back)) :: after)
        (before ++ (key, .arr (front ++ y :: back)) :: after)

/-- **An edit of a document**: noise in one of its nodes. -/
inductive Json.Edit : Json → Json → Prop where
  /-- The noise is in the node itself. -/
  | here {v : Json} {src : Source} {fields : Fields} (hv : v.source? = some src)
      (h : src.kind.Noise src.fields fields) : Edit v (.obj fields)
  /-- The noise is in a child, or further inside. -/
  | inside {v x y : Json} {src : Source} {step : Step} {fields : Fields}
      (hv : v.source? = some src) (hchild : src.Child step x)
      (hfields : Replaced x y step src.fields fields) (h : Edit x y) : Edit v (.obj fields)

/-! ## 2. Looking up fields -/

/-- A field does not show in the others. -/
theorem lookup_withField {key k : String} (before after : Fields) (v : Option Json)
    (hk : k ≠ key) : (withField before key v after).lookup k = (before ++ after).lookup k := by
  have hnone : (v.toList.map fun w => (key, w)).lookup k = none := by
    cases v with
    | none => rfl
    | some w =>
      have hne : (k == key) = false := beq_false_of_ne hk
      show ([(key, w)] : Fields).lookup k = none
      rw [List.lookup_cons, hne]
      rfl
  unfold withField
  rw [List.lookup_append, List.lookup_append, List.lookup_append, hnone, Option.or_none]

/-- Among fields with different names each one is found. -/
theorem lookup_eq_some_iff_mem {fields : Fields} (hkeys : (fields.map Prod.fst).Nodup)
    {key : String} {v : Json} : fields.lookup key = some v ↔ (key, v) ∈ fields := by
  induction fields with
  | nil => simp
  | cons field rest ih =>
    obtain ⟨k, w⟩ := field
    rw [List.map_cons, List.nodup_cons] at hkeys
    rw [List.lookup_cons, List.mem_cons]
    by_cases hk : key = k
    · have hrest : (key, v) ∉ rest := by
        intro hmem
        rw [hk] at hmem
        exact hkeys.1 (List.mem_map.mpr ⟨(k, v), hmem, rfl⟩)
      rw [hk] at hrest ⊢
      simp [hrest, eq_comm]
    · have hne : (key == k) = false := beq_false_of_ne hk
      rw [hne]
      simp [hk, ih hkeys.2]

/-- **The order of fields with different names does not matter.** -/
theorem lookup_eq_of_perm {fields fields' : Fields} (hkeys : (fields.map Prod.fst).Nodup)
    (h : fields.Perm fields') (key : String) : fields.lookup key = fields'.lookup key := by
  have hkeys' : (fields'.map Prod.fst).Nodup := (h.map Prod.fst).nodup_iff.mp hkeys
  refine Option.ext fun v => ?_
  rw [lookup_eq_some_iff_mem hkeys, lookup_eq_some_iff_mem hkeys', h.mem_iff]

/-- Where one field is exchanged for one that is alike, every field is alike. -/
theorem rel_lookup {load : Json → Load Nat} {a b : Json} (h : Json.Alike load a b)
    (before after : Fields) (key k : String) :
    Option.Rel (Json.Alike load) ((before ++ (key, a) :: after).lookup k)
      ((before ++ (key, b) :: after).lookup k) := by
  rw [List.lookup_append, List.lookup_append]
  cases before.lookup k with
  | some v => exact .some (.same v)
  | none =>
    rw [Option.none_or, Option.none_or, List.lookup_cons, List.lookup_cons]
    cases k == key with
    | true => exact .some h
    | false => exact Json.Alike.rel_refl _

/-! ## 3. Noise is not seen -/

/-- **Noise does not touch the fields that are read.** -/
theorem Kind.Noise.lookup_read {kind : Kind} {fields fields' : Fields}
    (h : kind.Noise fields fields') {key : String} (hkey : key ∈ kind.readKeys) :
    fields.lookup key = fields'.lookup key := by
  have hfield : ∀ (noise : String) (before after : Fields) (old new : Option Json),
      noise ∉ kind.readKeys → (withField before noise old after).lookup key =
        (withField before noise new after).lookup key := by
    intro noise before after old new hnoise
    have hne : key ≠ noise := by
      intro e
      rw [e] at hkey
      exact hnoise hkey
    rw [lookup_withField before after old hne, lookup_withField before after new hne]
  cases h with
  | reorder _ hkeys h => exact lookup_eq_of_perm hkeys h key
  | unread before after old new _ hnoise => exact hfield _ before after old new hnoise
  | inert before after old new hother hnoise =>
    have hread : kind.readKeys = commonKeys := by
      rw [hother]
      rfl
    exact hfield _ before after old new (hread ▸ hnoise)

/-- A field without nodes has no sites. -/
theorem Json.Inert.childSites {v : Json} (h : v.Inert) (key : String) :
    CallNames.childSites (key, v) = [] := by
  rw [List.eq_nil_iff_forall_not_mem]
  intro site hsite
  obtain ⟨step, u⟩ := site
  obtain ⟨hnode, hplace⟩ := mem_childSites_iff.mp hsite
  rcases hplace with ⟨rfl, _⟩ | ⟨items, i, rfl, hi, _⟩
  · exact h.1 (Json.isNode_iff.mp hnode)
  · exact h.2 items rfl u (List.mem_of_getElem? hi) (Json.isNode_iff.mp hnode)

theorem flatMap_childSites_withField {key : String} (before after : Fields) {v : Option Json}
    (hv : ∀ w ∈ v, w.Inert) :
    (withField before key v after).flatMap childSites = (before ++ after).flatMap childSites := by
  have hnone : (v.toList.map fun w => (key, w)).flatMap childSites = [] := by
    cases v with
    | none => rfl
    | some w =>
      show childSites (key, w) ++ [] = []
      rw [(hv w rfl).childSites key, List.append_nil]
  unfold withField
  rw [List.flatMap_append, List.flatMap_append, hnone, List.append_nil, List.flatMap_append]

namespace Source

variable {src : Source} {fields : Fields}

/-- **Loading does not see the noise in an object.** -/
theorem alike_of_noise (h : src.kind.Noise src.fields fields) (load : Json → Load Nat) :
    src.Alike load ⟨src.typeName, fields⟩ := by
  have hread : ∀ key ∈ src.kind.readKeys, src.field? key = fields.lookup key :=
    fun _ hkey => h.lookup_read hkey
  have hrel : ∀ key ∈ src.kind.readKeys, Option.Rel (Json.Alike load) (src.field? key)
      (Source.field? ⟨src.typeName, fields⟩ key) := by
    intro key hkey
    rw [hread key hkey]
    exact Json.Alike.rel_refl _
  refine ⟨rfl, fun key hkey => ?_, fun field hfield => ?_, fun hliteral => ?_, fun hother => ?_⟩
  · exact hrel key (List.mem_append_left _ (List.mem_append_left _ (List.mem_cons_of_mem _ hkey)))
  · refine hrel field.1 (List.mem_append_left _ (List.mem_append_right _ ?_))
    exact List.mem_map_of_mem hfield
  · have htext : ∀ key ∈ ["raw", "value"], src.field? key = fields.lookup key := by
      intro key hkey
      refine hread key ?_
      unfold Kind.readKeys
      rw [if_pos hliteral]
      exact List.mem_append_right _ hkey
    unfold literalText
    rw [htext "raw" (by simp), htext "value" (by simp)]
    rfl
  · have hsites : src.fields.flatMap childSites = fields.flatMap childSites := by
      generalize src.fields = old at h
      cases h with
      | reorder hkind => exact absurd hother hkind
      | unread _ _ _ _ hkind => exact absurd hother hkind
      | inert before after old new _ _ hold hnew =>
        rw [flatMap_childSites_withField before after hold,
          flatMap_childSites_withField before after hnew]
    unfold siteDemands
    rw [hsites]

/-- What looks like a node is loaded field by field. -/
theorem map_siteDemands (src : Source) (load : Json → Load Nat) :
    src.siteDemands.map (Demand.load load) = src.fields.flatMap fun field =>
      (childSites field).map fun site => (Demand.child site.1 site.2).load load := by
  unfold siteDemands
  rw [List.map_map, List.map_flatMap]
  rfl

/-- **Loading does not see which of two twins a child is.** -/
theorem alike_of_replaced {load : Json → Load Nat} {step : Step} {x y : Json}
    (hchild : src.Child step x) (hfields : Replaced x y step src.fields fields)
    (h : Json.Twins load x y) (harrays : ∀ xs ys, load (.arr xs) = load (.arr ys)) :
    src.Alike load ⟨src.typeName, fields⟩ ∧
      Option.Rel (Json.Alike load) (src.field? "type") (fields.lookup "type") := by
  have hone : ∃ key before after a b, src.fields = before ++ (key, a) :: after ∧
      fields = before ++ (key, b) :: after ∧ Json.Alike load a b := by
    generalize src.fields = old at hfields
    cases hfields with
    | field key before after => exact ⟨key, before, after, x, y, rfl, rfl, .node h⟩
    | entry key before after front back =>
      exact ⟨key, before, after, _, _, rfl, rfl, .entry front back h (harrays _ _)⟩
  obtain ⟨key, before, after, a, b, hold, rfl, hab⟩ := hone
  have hrel : ∀ k, Option.Rel (Json.Alike load) (src.field? k)
      ((before ++ (key, b) :: after).lookup k) := by
    intro k
    rw [field?, hold]
    exact rel_lookup hab before after key k
  refine ⟨⟨rfl, fun k _ => hrel k, fun field _ => hrel field.1, fun hliteral => ?_, fun _ => ?_⟩,
    hrel "type"⟩
  · -- a literal has no children
    have hschema : src.kind.schema = [] := by rw [hliteral]; rfl
    cases hchild with
    | single hkey | entry hkey =>
      rw [hschema] at hkey
      exact absurd hkey List.not_mem_nil
    | site hother | siteEntry hother =>
      rw [hliteral] at hother
      cases hother
  · rw [map_siteDemands, map_siteDemands, hold]
    show (before ++ (key, a) :: after).flatMap _ = (before ++ (key, b) :: after).flatMap _
    rw [List.flatMap_append, List.flatMap_append, List.flatMap_cons, List.flatMap_cons,
      hab.childSites_eq key]

end Source

/-! ## 4. Edited documents -/

/-- Objects that are alike for any room are twins. -/
theorem twins_of_alike {v w : Json} {src src' : Source} (hv : v.source? = some src)
    (hw : w.source? = some src') (h : ∀ room, src.Alike (loadNode room) src') (room : Nat) :
    Json.Twins (loadNode room) v w := by
  have hleft := Json.isNode_iff.mpr ⟨_, _, Json.source?_eq_some_iff.mp hv⟩
  have hright := Json.isNode_iff.mpr ⟨_, _, Json.source?_eq_some_iff.mp hw⟩
  refine ⟨hleft, hright, ?_⟩
  cases room with
  | zero => rfl
  | succ k => exact loadNode_eq_of_alike hv hw (h k)

/-- **An edited node is loaded as before**, with any room. -/
theorem Json.Edit.twins {v w : Json} (h : Edit v w) (room : Nat) : Twins (loadNode room) v w := by
  induction h generalizing room with
  | @here v src fields hv h =>
    have htype : fields.lookup "type" = some (.str src.typeName) := by
      rw [← h.lookup_read List.mem_cons_self]
      exact (source?_eq_some_iff.mp hv).2
    have hw : (Json.obj fields).source? = some ⟨src.typeName, fields⟩ :=
      source?_eq_some_iff.mpr ⟨rfl, htype⟩
    exact twins_of_alike hv hw (fun k => Source.alike_of_noise h (loadNode k)) room
  | @inside v x y src step fields hv hchild hfields _ ih =>
    have harrays : ∀ k xs ys, loadNode k (.arr xs) = loadNode k (.arr ys) := by
      intro k xs ys
      cases k <;> rfl
    have halike := fun k => Source.alike_of_replaced hchild hfields (ih k) (harrays k)
    have htype := Json.Alike.read_eq (halike 0).2 (fun o => o.bind Json.text?) (fun _ _ => rfl)
      (fun _ _ => rfl)
    have hw : (Json.obj fields).source? = some ⟨src.typeName, fields⟩ := by
      rw [source?, ← htype, Source.field?, (source?_eq_some_iff.mp hv).2]
      rfl
    exact twins_of_alike hv hw (fun k => (halike k).1) room

/-- **Noise does not matter.** Any number of edits leaves the outcome of loading a document as it
    is: the nodes and the root, or the defect and the path to it. -/
theorem ofJson_eq_of_edits {v w : Json} (h : Relation.ReflTransGen Json.Edit v w) :
    Document.ofJson w = Document.ofJson v := by
  induction h with
  | refl => rfl
  | @tail u w _ hedit ih =>
    have hload := (hedit.twins nodeLimit).loads
    rw [← ih, Document.ofJson, Document.ofJson, hload]

/-- The program of a statement, with a `sourceType` or without. -/
def programWith (sourceType : Option Json) (statement : Json) : Json :=
  .obj (withField [("type", .str "Program"), ("body", .arr [statement])] "sourceType" sourceType [])

/-- The object of an `await`, which is not modelled, with a location or without. -/
def awaitWith (loc : Option Json) (argument : Json) : Json :=
  .obj (withField [("type", .str "AwaitExpression")] "loc" loc [("argument", argument)])

/-- An identifier without a name, which is a defect. -/
def namelessFields : Fields := [("type", .str "Identifier"), ("name", .str "")]

/-- A program that awaits the identifier. -/
def awaitNameless : Json :=
  programWith none (awaitWith (some (.arr [.ofNat 1])) (.obj namelessFields))

/-- The same program with a source type, without the location, and with the fields of the
    identifier the other way round. -/
def awaitNamelessEdited : Json :=
  programWith (some (.str "module")) (awaitWith none (.obj namelessFields.reverse))

theorem edits_awaitNameless :
    Relation.ReflTransGen Json.Edit awaitNameless awaitNamelessEdited := by
  have hroot : awaitNameless.Edit (programWith (some (.str "module"))
      (awaitWith (some (.arr [.ofNat 1])) (.obj namelessFields))) :=
    .here rfl (.unread _ _ none _ (by decide) (by decide))
  have hloc : (Json.arr [.ofNat 1]).Inert := by
    refine ⟨fun ⟨_, _, h⟩ => (by cases h.1), fun items hitems u hu ⟨_, _, hobj⟩ => ?_⟩
    cases hitems
    rw [List.mem_singleton.mp hu] at hobj
    cases hobj.1
  have hawait : (awaitWith (some (.arr [.ofNat 1])) (.obj namelessFields)).Edit
      (awaitWith none (.obj namelessFields)) := by
    refine .here rfl (.inert _ _ (some _) none (by decide) (by decide) ?_ ?_)
    · intro v hv
      cases hv
      exact hloc
    · intro v hv
      cases hv
  have hname : (Json.obj namelessFields).Edit (.obj namelessFields.reverse) :=
    .here rfl (.reorder (by decide) (by decide) (List.reverse_perm _).symm)
  have hargument : (awaitWith none (.obj namelessFields)).Edit
      (awaitWith none (.obj namelessFields.reverse)) :=
    .inside rfl (.site (by decide) (List.mem_cons_of_mem _ List.mem_cons_self) (by decide))
      (.field "argument" [("type", .str "AwaitExpression")] []) hname
  have hstatement : ∀ (o : Option Json) (x y : Json), x ≠ .null → x.Edit y →
      (programWith o x).Edit (programWith o y) := by
    intro o x y hx h
    refine .inside rfl (.entry List.mem_cons_self (.inl ⟨false, rfl⟩) rfl rfl ?_)
      (.entry "body" [("type", .str "Program")] _ [] []) h
    exact fun hnull => absurd hnull hx
  refine .tail (.tail (.single hroot) (hstatement _ _ _ ?_ hawait)) (hstatement _ _ _ ?_ hargument)
  · exact fun h => (by cases h)
  · exact fun h => (by cases h)

theorem awaitNameless_eq_of_edits :
    Relation.ReflTransGen Json.Edit awaitNameless awaitNamelessEdited ∧
    Document.ofJson awaitNamelessEdited = Document.ofJson awaitNameless ∧
    (Document.ofJson awaitNameless).value =
      .error ⟨[⟨"body", some 0⟩, ⟨"argument", none⟩], .emptyIdentifier⟩ :=
  ⟨edits_awaitNameless, ofJson_eq_of_edits edits_awaitNameless, by decide +kernel⟩

end CallNames
