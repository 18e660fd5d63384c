import CallNames.Proofs.Arena.Add
import CallNames.Proofs.Document.Links
import CallNames.Proofs.Document.Tree

/-!
# The arena holds the document

An arena refers to nodes by handles, a document nests them. Loading must lose nothing on the way.

* `Arena.unfold` follows the handles below a node and gives back a tree;
* `unfold_mono`: a handle keeps its tree, **whatever is added behind it**, since an addition
  changes nothing of older nodes but their parents;
* `ofJson_faithful`: **the tree below the root is the tree that the document itself is**;
* `Form.Complete` says which slots may stay empty.
-/

namespace CallNames

/-! ## 1. Following handles -/

namespace Arena

/-- The tree below a handle, followed `depth` nodes down at most. -/
def unfold (a : Arena) : (depth : Nat) → Nat → Option Tree
  | 0, _ => none
  | depth + 1, i =>
    (a.node? i).bind fun n => (n.form.traverse? (a.unfold depth)).map (Tree.node n.span)

theorem unfold_succ_eq_some_iff {a : Arena} {depth i : Nat} {t : Tree} :
    a.unfold (depth + 1) i = some t ↔
      ∃ n f, a.node? i = some n ∧ n.form.traverse? (a.unfold depth) = some f ∧
        Tree.node n.span f = t := by
  rw [unfold, Option.bind_eq_some_iff]
  constructor
  · intro h
    obtain ⟨n, hn, h⟩ := h
    obtain ⟨f, hf, e⟩ := Option.map_eq_some_iff.mp h
    exact ⟨n, f, hn, hf, e⟩
  · intro h
    obtain ⟨n, f, hn, hf, e⟩ := h
    exact ⟨n, hn, Option.map_eq_some_iff.mpr ⟨f, hf, e⟩⟩

/-- **A handle keeps its tree** in every arena that goes on from this one. -/
theorem unfold_mono {a b : Arena} (hab : a.Extends b) {k l i : Nat} {t : Tree} (hkl : k ≤ l)
    (h : a.unfold k i = some t) : b.unfold l i = some t := by
  induction k generalizing l i t with
  | zero => cases h
  | succ k ih =>
    obtain ⟨l, rfl⟩ : ∃ l', l = l' + 1 := ⟨l - 1, by omega⟩
    obtain ⟨n, f, hn, hf, rfl⟩ := unfold_succ_eq_some_iff.mp h
    obtain ⟨m, hm, hspan, hform⟩ := hab i n hn
    have hkl' : k ≤ l := Nat.le_of_succ_le_succ hkl
    have hf' : m.form.traverse? (b.unfold l) = some f := by
      rw [hform]
      exact Form.traverse?_mono (fun _ _ hc => ih hkl' hc) hf
    exact unfold_succ_eq_some_iff.mpr ⟨m, f, hm, hf', by rw [hspan]⟩

end Arena

/-- **The tree that a loaded document stands for.** No chain of handles is longer than the arena. -/
def Document.tree? (d : Document) : Option Tree := d.arena.unfold d.arena.size d.root

/-! ## 2. Loading keeps the tree -/

/-- What loading one node achieves: the arena goes on, and the tree below the new handle is the tree
    of the value. -/
structure Stands (v : Json) (a : Arena) (i : Nat) (b : Arena) : Prop where
  goesOn : a.Extends b
  same : ∃ t, v.tree? = some t ∧ b.unfold b.size i = some t

/-- The same of a run of demands, slot by slot. -/
structure StandsAll (ds : List Demand) (a : Arena) (rs : List Ref) (b : Arena) : Prop where
  goesOn : a.Extends b
  same : ∃ ts, (ds.map Demand.value?).mapM (Option.mapM Json.tree?) = some ts ∧
    rs.mapM (Option.mapM (b.unfold b.size)) = some ts

namespace StandsAll

theorem done (a : Arena) : StandsAll [] a [] a := ⟨.refl a, [], rfl, rfl⟩

theorem hole {ds : List Demand} {a b : Arena} {rs : List Ref} (h : StandsAll ds a rs b) :
    StandsAll (.hole :: ds) a (none :: rs) b := by
  obtain ⟨ts, hds, hrs⟩ := h.same
  refine ⟨h.goesOn, none :: ts, ?_, ?_⟩
  · rw [List.map_cons, List.mapM_cons, hds]
    rfl
  · rw [List.mapM_cons, hrs]
    rfl

/-- The child keeps its tree while its siblings are loaded. -/
theorem child {v : Json} {ds : List Demand} {a b c : Arena} {i : Nat} {rs : List Ref} (step : Step)
    (hv : Stands v a i b) (h : StandsAll ds b rs c) :
    StandsAll (.child step v :: ds) a (some i :: rs) c := by
  obtain ⟨t, htree, hunfold⟩ := hv.same
  obtain ⟨ts, hds, hrs⟩ := h.same
  have hlater : c.unfold c.size i = some t := Arena.unfold_mono h.goesOn h.goesOn.size_le hunfold
  refine ⟨hv.goesOn.trans h.goesOn, some t :: ts, ?_, ?_⟩
  · rw [List.map_cons, List.mapM_cons, hds]
    show (v.tree?.map some).bind _ = _
    rw [htree]
    rfl
  · rw [List.mapM_cons, hrs]
    show ((c.unfold c.size i).map some).bind _ = _
    rw [hlater]
    rfl

/-- **A node stands for its object if its slots stand for what the object demands.** -/
theorem node {v : Json} {src : Source} {a b : Arena} {rs : List Ref} (hv : v.source? = some src)
    (hmet : List.Forall₂ Demand.Met src.demands rs) (h : StandsAll src.demands a rs b) :
    Stands v a b.size (b.add (src.nodeOf rs)).2 := by
  obtain ⟨ts, hds, hrs⟩ := h.same
  have hadd : b.Extends (b.add (src.nodeOf rs)).2 := b.extends_add (src.nodeOf rs)
  obtain ⟨m, hm, hspan, hform⟩ := b.exists_node?_add_size (src.nodeOf rs)
  refine ⟨h.goesOn.trans hadd, Tree.node src.span (src.outline.refill ts), ?_, ?_⟩
  · rw [Json.tree?_of_source hv, Form.traverse?, ← Source.value_demands (Source.admits_of_met hmet),
      hds]
    rfl
  · have hrs' : rs.mapM (Option.mapM ((b.add (src.nodeOf rs)).2.unfold b.size)) = some ts :=
      Form.mapM_slots_mono (fun _ _ hc => Arena.unfold_mono hadd (Nat.le_refl _) hc) hrs
    have htraverse : m.form.traverse? ((b.add (src.nodeOf rs)).2.unfold b.size) =
        some (src.outline.refill ts) := by
      have hnode : (src.nodeOf rs).form = src.outline.refill rs := rfl
      rw [hform, hnode, Form.traverse?, Form.slots_refill (Source.length_of_met hmet), hrs',
        Option.map_some, Form.refill_refill]
    rw [Arena.size_add]
    exact Arena.unfold_succ_eq_some_iff.mpr ⟨m, _, hm, htraverse, by rw [hspan]; rfl⟩

end StandsAll

/-- **Every node that is loaded stands for the value that it is loaded from.** -/
theorem loadNode_stands {room : Nat} {v : Json} {s t : LoadState} {i : Nat}
    (h : loadNode room v s = .ok i t) : Stands v s.arena i t.arena :=
  loadNode_induction (P := Stands) (Q := StandsAll)
    StandsAll.done
    (fun _ _ _ _ h => h.hole)
    (fun step _ _ _ _ _ _ _ hv h => h.child step hv)
    (fun _ _ _ _ _ hv hmet h => h.node hv hmet)
    h

/-! ## 3. Empty slots -/

namespace Form

variable {α β : Type}

/-- **Which slots may stay empty**: the value of a return, that of a declarator, the name of a
    function, and elements of an array. No other slot is empty, and no name is. -/
def Complete : Form α → Prop
  | .returnStatement _ => True
  | .array _ => True
  | .declarator id _ => id ≠ none
  | .function _ _ params body => none ∉ params ∧ body ≠ none
  | .identifier name => name ≠ ""
  | f => none ∉ f.slots

theorem eq_none_congr {r : Option α} {t : Option β} (h : r.isSome = t.isSome) :
    r = none ↔ t = none := by
  rw [← Option.not_isSome_iff_eq_none, h, Option.not_isSome_iff_eq_none]

theorem none_mem_congr {rs : List (Option α)} {ts : List (Option β)}
    (h : rs.map Option.isSome = ts.map Option.isSome) : none ∈ rs ↔ none ∈ ts := by
  induction rs generalizing ts with
  | nil =>
    rw [List.map_eq_nil_iff.mp h.symm]
    exact ⟨fun hmem => absurd hmem List.not_mem_nil, fun hmem => absurd hmem List.not_mem_nil⟩
  | cons r rs ih =>
    cases ts with
    | nil => cases h
    | cons t ts =>
      obtain ⟨hr, hrs⟩ := List.cons.inj h
      rw [List.mem_cons, List.mem_cons, ih hrs, eq_comm, eq_none_congr hr, eq_comm]

/-- Only which slots are empty counts, not what the others hold. -/
theorem complete_refill {f : Form α} {rs : List (Option β)}
    (hrs : rs.map Option.isSome = f.slots.map Option.isSome) (hf : f.Complete) :
    (f.refill rs).Complete := by
  have hlength : rs.length = f.slots.length := by
    rw [← List.length_map (f := Option.isSome), hrs, List.length_map]
  rw [← slots_refill hlength] at hrs
  cases f with
  | returnStatement | array => trivial
  | identifier => exact hf
  | declarator id init =>
    have hid : (slotAt rs 0).isSome = id.isSome := (List.cons.inj hrs).1
    exact fun h => hf ((eq_none_congr hid).mp h)
  | function style id params body =>
    have hrest : (rs.tail.dropLast ++ [rs.tail.getLast?.join]).map Option.isSome =
        (params ++ [body]).map Option.isSome := (List.cons.inj hrs).2
    rw [List.map_append, List.map_append] at hrest
    obtain ⟨hparams, hbody⟩ := List.append_inj' hrest rfl
    constructor
    · exact fun h => hf.1 ((none_mem_congr hparams).mp h)
    · exact fun h => hf.2 ((eq_none_congr (List.cons.inj hbody).1).mp h)
  | _ => exact fun h => hf ((none_mem_congr hrs).mp h)

end Form

namespace Source

variable {src : Source} {p : Json → Prop}

/-- Only a child that may be missing and an entry that may be a hole ask for an empty slot. -/
theorem rule_of_hole_mem {key : String} {rule : Rule} {v : Option Json}
    (h : .hole ∈ rule.slotDemands key v) : rule = .optionalChild ∨ rule = .children true := by
  rcases Rule.mem_slotDemands_cases h with ⟨_, hrule⟩ | ⟨_, ⟨⟩, _⟩ |
    ⟨holes, _, i, w, hentry, _, _, hrule⟩
  · exact .inl hrule
  · rcases Demand.ofEntry_cases holes ⟨key, some i⟩ w with ⟨_, hholes, _⟩ | ⟨_, _, e⟩ | ⟨_, e⟩
    · rw [hholes] at hrule
      rcases hrule with hrule | ⟨_, ⟨⟩⟩
      exact .inr hrule
    · cases hentry.trans e
    · cases hentry.trans e

/-- A field of any other rule fills all its slots. -/
theorem none_not_mem_slotsOf {key : String} {rule : Rule}
    (h : ∀ d ∈ src.fieldDemands (key, rule), d.Admits p)
    (hrule : rule ≠ .optionalChild ∧ rule ≠ .children true) :
    none ∉ src.slotsOf (key, rule) := by
  obtain ⟨hdefect, hslots⟩ := admits_fieldDemands_iff.mp h
  intro hmem
  rw [← value_slotDemands hdefect] at hmem
  obtain ⟨d, hd, e⟩ := List.mem_map.mp hmem
  have hadmits := hslots d hd
  cases d with
  | defect | nullEntry => exact hadmits
  | child => cases e
  | hole =>
    rcases rule_of_hole_mem hd with hopt | hchildren
    · exact hrule.1 hopt
    · exact hrule.2 hchildren

/-- A child that must be there is there. -/
theorem childAt_ne_none {key : String} (h : ∀ d ∈ src.fieldDemands (key, .child), d.Admits p) :
    src.childAt key ≠ none := by
  have hslots : none ∉ src.slotsOf (key, .child) := none_not_mem_slotsOf h (by decide)
  exact fun e => hslots (List.mem_singleton.mpr e.symm)

/-- A name that must be there is not empty. -/
theorem textAt_ne_empty {key : String} (h : ∀ d ∈ src.fieldDemands (key, .name), d.Admits p) :
    src.textAt key "" ≠ "" := by
  have hdefect : Rule.name.defect? src.kind key (src.field? key) = none :=
    (admits_fieldDemands_iff.mp h).1
  unfold textAt
  cases hf : src.field? key with
  | none => rw [hf] at hdefect; cases hdefect
  | some w =>
    rw [hf] at hdefect
    cases w with
    | str name =>
      intro (e : name = "")
      rw [e] at hdefect
      cases hdefect
    | _ => cases hdefect

/-- An object whose demands can be met has a complete outline. -/
theorem complete_outline (h : ∀ d ∈ src.demands, d.Admits p) : src.outline.Complete := by
  by_cases hother : src.kind = .other
  · rw [outline_of_other hother]
    intro hmem
    obtain ⟨_, _, e⟩ := List.mem_map.mp hmem
    cases e
  rw [demands_of_modelled hother] at h
  have hfield : ∀ field ∈ src.kind.schema, ∀ d ∈ src.fieldDemands field, d.Admits p :=
    fun field hmem d hd => h d (List.mem_flatMap.mpr ⟨field, hmem, hd⟩)
  -- where the schema has no rule that allows for empty slots, the outline has none
  have hall : (∀ field ∈ src.kind.schema, field.2 ≠ .optionalChild ∧ field.2 ≠ .children true) →
      none ∉ src.outline.slots := by
    intro hrules hmem
    rw [slots_outline hother] at hmem
    obtain ⟨field, hschema, hnone⟩ := List.mem_flatMap.mp hmem
    exact none_not_mem_slotsOf (hfield field hschema) (hrules field hschema) hnone
  unfold outline at hall ⊢
  rw [kindNamed_eq] at hall ⊢
  cases hk : src.kind with
  | other => exact absurd hk hother
  | returnStatement | arrayExpression => trivial
  | identifier => exact textAt_ne_empty (hfield ("name", .name) (by rw [hk]; decide))
  | variableDeclarator => exact childAt_ne_none (hfield ("id", .child) (by rw [hk]; decide))
  | functionExpression | functionDeclaration | arrowFunctionExpression =>
    have hparams := hfield ("params", .children false) (by rw [hk]; decide)
    have hbody := hfield ("body", .child) (by rw [hk]; decide)
    exact ⟨none_not_mem_slotsOf hparams (by decide), childAt_ne_none hbody⟩
  | _ =>
    rw [hk] at hall
    exact hall (by decide)

end Source

/-- What meeting demands yields is empty exactly where they ask for no value. -/
theorem isSome_of_met {ds : List Demand} {rs : List Ref} (h : List.Forall₂ Demand.Met ds rs) :
    rs.map Option.isSome = (ds.map Demand.value?).map Option.isSome := by
  induction h with
  | nil => rfl
  | cons hd _ ih =>
    rw [List.map_cons, ih]
    cases hd <;> rfl

/-- The form of every node that is stored is complete. -/
theorem complete_nodeOf {src : Source} {rs : List Ref}
    (hmet : List.Forall₂ Demand.Met src.demands rs) : (src.nodeOf rs).form.Complete := by
  have hadmits := Source.admits_of_met hmet
  refine Form.complete_refill ?_ (Source.complete_outline hadmits)
  rw [isSome_of_met hmet, Source.value_demands hadmits]

/-- Loading adds complete forms only. -/
theorem loadNode_complete {room : Nat} {v : Json} {s t : LoadState} {i : Nat}
    (h : loadNode room v s = .ok i t) :
    (∀ f ∈ s.arena.forms, f.Complete) → ∀ f ∈ t.arena.forms, f.Complete := by
  refine loadNode_induction
    (P := fun _ a _ b => (∀ f ∈ a.forms, f.Complete) → ∀ f ∈ b.forms, f.Complete)
    (Q := fun _ a _ b => (∀ f ∈ a.forms, f.Complete) → ∀ f ∈ b.forms, f.Complete)
    (fun _ h => h) (fun _ _ _ _ h => h) (fun _ _ _ _ _ _ _ _ hv hds h => hds (hv h)) ?_ h
  intro _ src a rs b _ hmet hds ha f hf
  rw [Arena.forms_add] at hf
  rcases List.mem_append.mp hf with hold | hnew
  · exact hds ha f hold
  · rw [List.mem_singleton.mp hnew]
    exact complete_nodeOf hmet

/-! ## 4. Documents -/

/-- **A loaded document is faithful.** The tree below its root is the tree that is read off the
    value along its fields; only slots that may stay empty are empty, and no name is; and the
    offsets of every node are those that its object names. -/
theorem ofJson_faithful {v : Json} {d : Document} (h : (Document.ofJson v).value = .ok d) :
    (∃ t, v.tree? = some t ∧ d.tree? = some t) ∧
      (∀ i n, d.arena.node? i = some n → n.form.Complete) ∧
      ∀ src : Source, src.HasSpan src.span := by
  obtain ⟨t, ht, ha⟩ := Document.ofJson_eq_ok_iff.mp h
  have hforms : ∀ f ∈ d.arena.forms, f.Complete := by
    rw [ha]
    exact loadNode_complete ht fun _ hf => absurd hf List.not_mem_nil
  refine ⟨?_, fun i n hn => ?_, Source.hasSpan_span⟩
  · unfold Document.tree?
    rw [ha]
    exact (loadNode_stands ht).same
  · refine hforms n.form (List.mem_iff_getElem?.mpr ⟨i, ?_⟩)
    rw [Arena.getElem?_forms, hn]
    rfl

/-- A program with the texts that a reader has to put in itself: literals with a text, with a value
    only and with neither, a declaration with a keyword and one without, a hole, offsets of both
    spellings, and an unmodelled node with nodes in and beside an array. -/
def literalProgram : Json :=
  .obj [("type", .str "Program"), ("range", .arr [.ofNat 0, .ofNat 60]), ("body", .arr
    [.obj [("type", .str "VariableDeclaration"), ("start", .ofNat 0), ("end", .ofNat 20),
      ("kind", .str "await using"), ("declarations", .arr
        [.obj [("type", .str "VariableDeclarator"),
          ("id", .obj [("type", .str "Identifier"), ("name", .str "a")]),
          ("init", .obj [("type", .str "Literal"), ("value", .ofNat 31), ("raw", .str "0x1F")])]])],
     .obj [("type", .str "VariableDeclaration"), ("declarations", .arr
        [.obj [("type", .str "VariableDeclarator"),
          ("id", .obj [("type", .str "Identifier"), ("name", .str "b")]),
          ("init", .obj [("type", .str "Literal"), ("raw", .null), ("value", .str "\"")])],
         .obj [("type", .str "VariableDeclarator"),
          ("id", .obj [("type", .str "Identifier"), ("name", .str "c")]),
          ("init", .obj [("type", .str "ArrayExpression"),
            ("elements", .arr [.null, .obj [("type", .str "Literal")]])])]])],
     .obj [("type", .str "TemplateLiteral"),
      ("quasis", .arr [.obj [("type", .str "TemplateElement")], .ofNat 7,
        .arr [.obj [("type", .str "ThisExpression")]]]),
      ("tag", .obj [("type", .str "ThisExpression")])]])]

/-- What is loaded from it. -/
def literalProgramLoaded : Document where
  arena := ⟨#[{ parent := some 2, form := .identifier "a" },
    { parent := some 2, form := .literal "0x1F" },
    { parent := some 3, form := .declarator (some 0) (some 1) },
    { span := ⟨0, 20⟩, parent := some 15, form := .declaration .awaitUsingDecl [some 2] },
    { parent := some 6, form := .identifier "b" },
    { parent := some 6, form := .literal "\"\\\"\"" },
    { parent := some 11, form := .declarator (some 4) (some 5) },
    { parent := some 10, form := .identifier "c" },
    { parent := some 9, form := .literal "" },
    { parent := some 10, form := .array [none, some 8] },
    { parent := some 11, form := .declarator (some 7) (some 9) },
    { parent := some 15, form := .declaration .varDecl [some 6, some 10] },
    { parent := some 14, form := .other "TemplateElement" [] },
    { parent := some 14, form := .this },
    { parent := some 15, form := .other "TemplateLiteral" [some 12, some 13] },
    { span := ⟨0, 60⟩, form := .program [some 3, some 11, some 14] }]⟩
  root := 15

theorem literalProgram_faithful :
    (Document.ofJson literalProgram).value = .ok literalProgramLoaded ∧
      (∃ t, literalProgram.tree? = some t ∧ literalProgramLoaded.tree? = some t) ∧
      (∀ i n, literalProgramLoaded.arena.node? i = some n → n.form.Complete) ∧
      ∀ src : Source, src.HasSpan src.span := by
  have hloaded : (Document.ofJson literalProgram).value = .ok literalProgramLoaded := by
    decide +kernel
  exact ⟨hloaded, ofJson_faithful hloaded⟩

end CallNames
