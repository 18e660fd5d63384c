import CallNames.Proofs.Document.Origin
import CallNames.Proofs.Report.Calls

/-!
# Every call is reported

The report of a document has one entry for each call and each construction, and no other.

* `Arena.Reports` says what an entry has to do with the object and with the node that it is about:
  kind, place, and **one report for each entry of the array `arguments`**, in its order;
* `reports_of_holds`: the report of a node keeps to this;
* `ofTree_reports_calls`: the entries of a report go with the calls of the document, one by one and
  in the order of the walk, which passes every node once.
-/

namespace CallNames

/-! ## 1. Calls -/

/-- The kinds that are reported. -/
def Kind.isCall : Kind → Bool
  | .callExpression | .newExpression => true
  | _ => false

theorem Kind.isCall_ofName (name : String) :
    (Kind.ofName name).isCall = (name == "CallExpression" || name == "NewExpression") := by
  by_cases hcall : name = "CallExpression"
  · subst hcall
    decide
  · by_cases hnew : name = "NewExpression"
    · subst hnew
      decide
    · rw [beq_false_of_ne hcall, beq_false_of_ne hnew]
      have hname : Kind.ofName name ≠ .other → (Kind.ofName name).name = name := Kind.name_ofName
      cases hk : Kind.ofName name with
      | callExpression =>
        rw [hk] at hname
        exact absurd (hname (by decide)).symm hcall
      | newExpression =>
        rw [hk] at hname
        exact absurd (hname (by decide)).symm hnew
      | _ => rfl

/-- Whether a node is a call or a construction. -/
def Arena.isCall (a : Arena) (i : Nat) : Bool := (a.form? (some i)).any fun form => form.kind.isCall

namespace Json

/-- Whether a value is the object of a call or a construction. -/
def isCall (v : Json) : Bool :=
  match v.field? "type" with
  | some (.str name) => name == "CallExpression" || name == "NewExpression"
  | _ => false

/-- What the array `arguments` of an object holds; nothing if it is missing. -/
def HasArguments (v : Json) (items : List Json) : Prop :=
  v.field? "arguments" = some (.arr items) ∨ (v.field? "arguments" = none ∧ items = [])

end Json

/-- **What the report of a call says**, of the object that the call comes from and of its node. -/
structure Arena.Reports (a : Arena) (v : Json) (i : Nat) (r : CallReport) : Prop where
  /-- The kind is that of the object. -/
  typeName : v.field? "type" = some (.str r.style.kind.name)
  /-- Kind and place are those of the node, and there is a report for each argument: the name is
      that of the node, the type name that of the object. -/
  node : ∃ n callee handles items, a.node? i = some n ∧ n.span = r.span ∧
    n.form = .call r.style callee (handles.map some) ∧ v.HasArguments items ∧
    List.Forall₂ a.Holds items handles ∧
    r.arguments.map ArgumentReport.name = handles.map (fun c => (a.nodeName (some c)).value) ∧
    r.arguments.map (fun g => some (.str g.typeName)) = items.map (Json.field? "type")
  /-- Every argument is an operand. -/
  operands : ∀ g ∈ r.arguments, g.operand = true
  /-- The name of an enclosing function is not empty. -/
  enclosing : r.enclosing ≠ some ""

/-! ## 2. The report of one node -/

namespace Arena

variable {a : Arena} {v : Json} {i root : Nat}

theorem enclosingLabel_ne_empty (a : Arena) (r : Ref) : (a.enclosingLabel r).value ≠ some "" := by
  unfold enclosingLabel
  rw [Traced.value_bind]
  cases (a.enclosingName r).value with
  | none => exact fun h => (by cases h)
  | some named =>
    intro h
    have hname : (if ((a.qualifiedName (some named)).value).isEmpty then none
        else some (a.qualifiedName (some named)).value) = some "" := h
    split at hname
    · cases hname
    · rename_i hne
      rw [Option.some.inj hname] at hne
      exact hne rfl

/-- A list of slots without an empty one holds handles only. -/
theorem exists_handles {rs : List Ref} (h : none ∉ rs) :
    ∃ handles : List Nat, rs = handles.map some := by
  induction rs with
  | nil => exact ⟨[], rfl⟩
  | cons r rs ih =>
    obtain ⟨hr, hrs⟩ := not_or.mp (mt List.mem_cons.mpr h)
    obtain ⟨handles, rfl⟩ := ih hrs
    obtain ⟨c, rfl⟩ := Option.ne_none_iff_exists'.mp (Ne.symm hr)
    exact ⟨c :: handles, rfl⟩

/-- The handles of a list of children hold the entries of the array. -/
theorem forall₂_holds_items {items : List Json} {handles : List Nat}
    (h : List.Forall₂ (Option.Rel a.Holds)
      (items.map fun w => if w.isNull then none else some w) (handles.map some)) :
    List.Forall₂ a.Holds items handles := by
  rw [List.forall₂_map_left_iff, List.forall₂_map_right_iff] at h
  refine h.imp fun w c hwc => ?_
  cases hnull : w.isNull with
  | true =>
    rw [hnull] at hwc
    cases hwc
  | false =>
    rw [hnull] at hwc
    cases hwc with
    | some hc => exact hc

/-- A node is a call or a construction exactly if the object is that it comes from. -/
theorem Holds.isCall_eq (h : a.Holds v i) : v.isCall = a.isCall i := by
  obtain ⟨src, n, hsrc, hn, _, hshape, _⟩ := h.exists_node
  obtain ⟨rfl, htype⟩ := Json.source?_eq_some_iff.mp hsrc
  have htype' : (Json.obj src.fields).field? "type" = some (.str src.typeName) := htype
  rw [isCall, form?_of_node? hn, Json.isCall, htype', hshape, Option.any_some, Form.kind_refill,
    Source.kind_outline]
  exact (Kind.isCall_ofName src.typeName).symm

/-- The arguments of a valid call are those that its array lists. -/
theorem exists_items {style : CallStyle} {src : Source} (hsrc : v.source? = some src)
    (hkind : src.kind = style.kind) (hvalid : ∃ level, ValidAt level v) :
    ∃ items, v.HasArguments items ∧
      src.childrenAt "arguments" = items.map fun w => if w.isNull then none else some w := by
  obtain ⟨level, hvalid⟩ := hvalid
  have hadmits := (admits_demands_iff_conforms hsrc).mpr (validAt_iff.mp hvalid).2
  have hfield : ("arguments", Rule.optionalChildren) ∈ src.kind.schema := by
    rw [hkind]
    cases style <;> decide
  have hmodelled : src.kind ≠ .other := by
    rw [hkind]
    cases style <;> decide
  rw [Source.demands_of_modelled hmodelled] at hadmits
  have hallows := admits_fieldDemands_iff_allows.mp fun d hd =>
    hadmits d (List.mem_flatMap.mpr ⟨_, hfield, hd⟩)
  obtain ⟨rfl, _⟩ := Json.source?_eq_some_iff.mp hsrc
  unfold Source.childrenAt
  rcases hallows with hmissing | ⟨items, hitems, _⟩
  · refine ⟨[], .inr ⟨hmissing, rfl⟩, ?_⟩
    rw [show src.field? "arguments" = none from hmissing]
    rfl
  · refine ⟨items, .inl hitems, ?_⟩
    rw [show src.field? "arguments" = some (.arr items) from hitems]

/-- **What a call has from its object**: its kind, and a handle for each entry of its array. -/
theorem exists_arguments {n : Node} {style : CallStyle} {callee : Ref} {arguments : List Ref}
    (h : a.Holds v i) (hvalid : ∃ level, ValidAt level v) (hn : a.node? i = some n)
    (hform : n.form = .call style callee arguments) (hcomplete : n.form.Complete) :
    v.field? "type" = some (.str style.kind.name) ∧
      ∃ handles items, arguments = handles.map some ∧ v.HasArguments items ∧
        List.Forall₂ a.Holds items handles := by
  obtain ⟨src, n', hsrc, hn', _, hshape, hslots⟩ := h.exists_node
  rw [hn] at hn'
  cases hn'
  have hkind : src.kind = style.kind := by
    rw [← Source.kind_outline, ← Form.kind_refill src.outline n.form.slots, ← hshape, hform]
    rfl
  have hmodelled : src.kind ≠ .other := by
    rw [hkind]
    cases style <;> decide
  have hname : src.typeName = style.kind.name := by
    rw [← hkind]
    exact (Kind.name_ofName hmodelled).symm
  have houtline : src.outline =
      .call style (src.childAt "callee") (src.childrenAt "arguments") := by
    unfold Source.outline
    rw [Source.kindNamed_eq, hkind]
    cases style <;> rfl
  have hfilled : none ∉ arguments := by
    rw [hform] at hcomplete
    exact fun hmem => hcomplete (List.mem_cons_of_mem callee hmem)
  obtain ⟨handles, rfl⟩ := exists_handles hfilled
  obtain ⟨items, hitems, hchildren⟩ := exists_items hsrc hkind hvalid
  rw [houtline, hform] at hslots
  obtain _ | ⟨_, harguments⟩ := hslots
  rw [hchildren] at harguments
  obtain ⟨rfl, htype⟩ := Json.source?_eq_some_iff.mp hsrc
  rw [← hname]
  exact ⟨htype, handles, items, rfl, hitems, forall₂_holds_items harguments⟩

/-- **The report of a call keeps to its object and its node.** -/
theorem reports_of_holds {n : Node} {style : CallStyle} {callee : Ref} {arguments : List Ref}
    (h : a.Holds v i) (hvalid : ∃ level, ValidAt level v) (hn : a.node? i = some n)
    (hform : n.form = .call style callee arguments) (hcomplete : n.form.Complete) :
    ∃ r, a.callReport? i = some r ∧ a.Reports v i r.value := by
  obtain ⟨htype, handles, items, rfl, hitems, hholds⟩ :=
    exists_arguments h hvalid hn hform hcomplete
  have hreports : (((handles.map some).filterMap id).map (a.argumentReport i)).map Traced.value =
      handles.map fun c => (a.argumentReport i c).value := by
    simp [Function.comp_def]
  have hoperand : ∀ c ∈ handles, a.isOperand (some c) (some i) = true := by
    intro c hc
    have hcall : a.form? (some i) = some (.call style callee (handles.map some)) := by
      rw [form?_of_node? hn, hform]
    exact isOperand_of_mem hcall (List.mem_map_of_mem hc)
  have htypes : items.map (Json.field? "type") =
      handles.map fun c => some (Json.str ((a.typeName? (some c)).getD "")) := by
    refine map_eq_map_of_forall₂ hholds fun w _ c hw => ?_
    obtain ⟨name, hname, hnode⟩ := hw.typeName
    rw [hname, hnode]
    rfl
  obtain ⟨span, parent, form⟩ := n
  cases hform
  unfold callReport?
  rw [hn]
  refine ⟨_, rfl, htype, ⟨_, callee, handles, items, hn, rfl, rfl, hitems, hholds, ?_, ?_⟩, ?_,
    a.enclosingLabel_ne_empty (some i)⟩
  · show List.map _ (List.map _ _) = _
    rw [hreports, List.map_map]
    rfl
  · show List.map _ (List.map _ _) = _
    rw [hreports, List.map_map, htypes]
    rfl
  · show ∀ g ∈ List.map _ _, _
    rw [hreports]
    intro g hg
    obtain ⟨c, hc, rfl⟩ := List.mem_map.mp hg
    exact hoperand c hc

/-- Any other node has no report. -/
theorem callReport?_of_not_isCall {n : Node} (hn : a.node? i = some n) (h : a.isCall i = false) :
    a.callReport? i = none := by
  rw [isCall, form?_of_node? hn] at h
  unfold callReport?
  rw [hn]
  obtain ⟨span, parent, form⟩ := n
  cases form with
  | call style callee arguments => cases style <;> cases h
  | _ => rfl

/-- **Along a walk, the reports go with the calls one by one.** -/
theorem exists_entries {ws : List Json} {js : List Nat} (h : List.Forall₂ a.Holds ws js)
    (hvalid : ∀ w ∈ ws, ∃ level, ValidAt level w)
    (hcomplete : ∀ j n, a.node? j = some n → n.form.Complete) :
    ∃ entries : List (Json × Nat), entries.map Prod.fst = ws.filter Json.isCall ∧
      entries.map Prod.snd = js.filter a.isCall ∧
      List.Forall₂ (fun e => a.Reports e.1 e.2) entries
        (js.filterMap fun j => (a.callReport? j).map Traced.value) := by
  induction h with
  | nil => exact ⟨[], rfl, rfl, .nil⟩
  | @cons w j ws js hw _ ih =>
    obtain ⟨entries, hvalues, hhandles, hreports⟩ :=
      ih fun w' hw' => hvalid w' (List.mem_cons_of_mem w hw')
    obtain ⟨_, n, _, hn, _⟩ := hw.exists_node
    have hsame := hw.isCall_eq
    cases hcall : a.isCall j with
    | false =>
      rw [hcall] at hsame
      refine ⟨entries, ?_, ?_, ?_⟩
      · rw [List.filter_cons_of_neg (by rw [hsame]; decide), hvalues]
      · rw [List.filter_cons_of_neg (by rw [hcall]; decide), hhandles]
      · rw [List.filterMap_cons, callReport?_of_not_isCall hn hcall]
        exact hreports
    | true =>
      rw [hcall] at hsame
      have hform : ∃ style callee arguments, n.form = .call style callee arguments := by
        rw [isCall, form?_of_node? hn] at hcall
        cases hf : n.form with
        | call style callee arguments => exact ⟨style, callee, arguments, rfl⟩
        | function style => rw [hf] at hcall; cases style <;> cases hcall
        | _ => rw [hf] at hcall; cases hcall
      obtain ⟨style, callee, arguments, hform⟩ := hform
      obtain ⟨r, hr, hreport⟩ :=
        reports_of_holds hw (hvalid w List.mem_cons_self) hn hform (hcomplete j n hn)
      refine ⟨(w, j) :: entries, ?_, ?_, ?_⟩
      · rw [List.filter_cons_of_pos hsame, List.map_cons, hvalues]
      · rw [List.filter_cons_of_pos hcall, List.map_cons, hhandles]
      · rw [List.filterMap_cons, hr]
        exact .cons hreport hreports

end Arena

/-! ## 3. Documents -/

/-- **The report of a loaded document has one entry for each call.** The calls of the document and
    those of the arena, in the order of the walk from the root, go with the entries one by one, and
    each entry keeps to its object and its node. The walk passes every node of the arena once, so
    that no call is lost and none is reported twice. -/
theorem ofTree_reports_calls {v : Json} {d : Document} (h : (Document.ofJson v).value = .ok d)
    (file : String) :
    (∃ entries : List (Json × Nat), entries.map Prod.fst = v.nodes.filter Json.isCall ∧
      entries.map Prod.snd = (d.arena.preorder (some d.root)).filter d.arena.isCall ∧
      List.Forall₂ (fun e => d.arena.Reports e.1 e.2) entries
        (FileReport.ofTree file d.arena (some d.root)).value.calls) ∧
    (d.arena.preorder (some d.root)).Perm (List.range d.arena.size) := by
  have htree := (ofJson_forest h).isTree
  have hvalid := ofJson_validAt h
  rw [Arena.preorder_eq_parentsFirst htree.bottomUp]
  refine ⟨?_, ?_⟩
  · rw [FileReport.value_ofTree, Arena.preorder_eq_parentsFirst htree.bottomUp]
    exact Arena.exists_entries ((ofJson_holds h).forall₂_nodes htree) hvalid.nodes
      fun _ _ hn => ofJson_complete h hn
  · rw [← ofJson_childrenFirst h]
    exact d.arena.parentsFirst_perm_childrenFirst d.root

/-- The document of `a.go = function () { return new P(f(x), this) }`. -/
def goHandler : Json :=
  .obj [("type", .str "AssignmentExpression"),
    ("left", .obj [("type", .str "MemberExpression"),
      ("object", .obj [("type", .str "Identifier"), ("name", .str "a")]),
      ("property", .obj [("type", .str "Identifier"), ("name", .str "go")])]),
    ("right", .obj [("type", .str "FunctionExpression"), ("id", .null), ("params", .arr []),
      ("body", .obj [("type", .str "BlockStatement"), ("body", .arr
        [.obj [("type", .str "ReturnStatement"),
          ("argument", .obj [("type", .str "NewExpression"),
            ("start", .ofNat 28), ("end", .ofNat 43),
            ("callee", .obj [("type", .str "Identifier"), ("name", .str "P")]),
            ("arguments", .arr
              [.obj [("type", .str "CallExpression"), ("range", .arr [.ofNat 34, .ofNat 38]),
                ("callee", .obj [("type", .str "Identifier"), ("name", .str "f")]),
                ("arguments", .arr [.obj [("type", .str "Identifier"), ("name", .str "x")]])],
               .obj [("type", .str "ThisExpression")]])])]])])])]

/-- What is loaded from it. -/
def goHandlerLoaded : Document where
  arena := ⟨#[{ parent := some 2, form := .identifier "a" },
    { parent := some 2, form := .identifier "go" },
    { parent := some 12, form := .member (some 0) (some 1) false },
    { parent := some 8, form := .identifier "P" },
    { parent := some 6, form := .identifier "f" },
    { parent := some 6, form := .identifier "x" },
    { span := ⟨34, 38⟩, parent := some 8, form := .call .call (some 4) [some 5] },
    { parent := some 8, form := .this },
    { span := ⟨28, 43⟩, parent := some 9, form := .call .construct (some 3) [some 6, some 7] },
    { parent := some 10, form := .returnStatement (some 8) },
    { parent := some 11, form := .block [some 9] },
    { parent := some 12, form := .function .expression none [] (some 10) },
    { form := .assignment "=" (some 2) (some 11) }]⟩
  root := 12

theorem ofJson_goHandler : (Document.ofJson goHandler).value = .ok goHandlerLoaded := by
  decide +kernel

theorem goHandler_reports_calls :
    (Document.ofJson goHandler).value = .ok goHandlerLoaded ∧
    (∃ entries : List (Json × Nat), entries.map Prod.fst = goHandler.nodes.filter Json.isCall ∧
      entries.map Prod.snd = [8, 6] ∧
      List.Forall₂ (fun e => goHandlerLoaded.arena.Reports e.1 e.2) entries
        (FileReport.ofTree "go.json" goHandlerLoaded.arena (some 12)).value.calls) ∧
    (goHandlerLoaded.arena.preorder (some 12)).Perm (List.range 13) := by
  have hcalls : (goHandlerLoaded.arena.preorder (some 12)).filter goHandlerLoaded.arena.isCall =
      [8, 6] := by decide +kernel
  rw [← hcalls]
  exact ⟨ofJson_goHandler, ofTree_reports_calls ofJson_goHandler "go.json"⟩

end CallNames
