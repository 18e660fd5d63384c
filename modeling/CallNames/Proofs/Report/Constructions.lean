import CallNames.Proofs.Report.Locality

/-!
# Calls and constructions of the same callee

A call is named by itself, and naming it passes on to its callee; a construction is named by its
callee at once. Both ways lead to the same names as long as the callee is no call: **a callee that
is a call is passed over as well if it is constructed, but not if it is called**.

* `validAt_callOf_iff`: whether the document is a call or a construction makes no difference for
  loading it;
* `ofJson_rootReport`: the report of a root is read off its tree;
* `callOf_names_alike`: the names of a call are those of the construction, unless the callee is a
  call; `callOf_nestedCall_names_differ` is such a callee.
-/

namespace CallNames

/-! ## 1. Loading -/

/-- The document of a call or a construction without arguments. -/
def Json.callOf (style : CallStyle) (callee : Json) : Json :=
  .obj [("type", .str style.kind.name), ("callee", callee)]

/-- What a call or a construction without arguments is read from. -/
def Source.callOf (style : CallStyle) (callee : Json) : Source where
  typeName := style.kind.name
  fields := [("type", .str style.kind.name), ("callee", callee)]

theorem Json.source?_callOf (style : CallStyle) (c : Json) :
    (Json.callOf style c).source? = some (.callOf style c) := rfl

/-- A call or a construction is valid exactly if its callee is there and valid. -/
theorem validAt_callOf_iff {level : Nat} {style : CallStyle} {c : Json} :
    ValidAt level (.callOf style c) ↔ level ≤ nodeLimit ∧ c ≠ .null ∧ ValidAt (level + 1) c := by
  have hkind : Kind.ofName style.kind.name = style.kind := Kind.ofName_name style.kind
  have hmodelled : style.kind ≠ .other := by cases style <;> decide
  have hschema : style.kind.schema = [("callee", .child), ("arguments", .optionalChildren)] := by
    cases style <;> rfl
  rw [validAt_iff]
  constructor
  · intro h
    obtain ⟨hlevel, name, fields, ⟨⟨⟩, ⟨⟩⟩, hfields, _⟩ := h
    rw [hkind, hschema] at hfields
    obtain ⟨w, ⟨⟩, hw⟩ := hfields ("callee", .child) List.mem_cons_self
    exact ⟨hlevel, hw⟩
  · intro h
    obtain ⟨hlevel, hc⟩ := h
    refine ⟨hlevel, style.kind.name, _, ⟨rfl, rfl⟩, ?_, ?_⟩
    · rw [hkind, hschema]
      intro field hfield
      rcases List.mem_cons.mp hfield with rfl | hfield
      · exact ⟨c, rfl, hc⟩
      · rw [List.mem_singleton.mp hfield]
        exact .inl rfl
    · rw [hkind]
      exact fun hother => absurd hother hmodelled

/-- The tree of a call or a construction without arguments. -/
theorem Json.tree?_callOf {style : CallStyle} {c : Json} {t : Tree} (hc : c ≠ .null)
    (h : (Json.callOf style c).tree? = some t) :
    ∃ u, c.tree? = some u ∧ t = .node {} (.call style (some u) []) := by
  obtain ⟨src, ts, hsrc, rfl, hts⟩ := Json.exists_slots_of_tree? h
  rw [Json.source?_callOf] at hsrc
  cases hsrc
  have hcallee : (Source.callOf style c).childAt "callee" = some c :=
    Source.childAt_eq_some_iff.mpr ⟨rfl, hc⟩
  have houtline : (Source.callOf style c).outline = .call style (some c) [] := by
    rw [← hcallee]
    cases style <;> rfl
  rw [houtline] at hts ⊢
  obtain _ | ⟨hcallee, ⟨⟩⟩ := hts
  cases hcallee with
  | some hu => exact ⟨_, hu, rfl⟩

/-! ## 2. Names -/

/-- The report of the root of a document stands first among its calls. -/
def Document.RootReport (d : Document) (file : String) (r : CallReport) : Prop :=
  (d.arena.callReport? d.root).map Traced.value = some r ∧ (d.calls file).head? = some r

/-- **The report of a root is read off its tree.** -/
theorem ofJson_rootReport {v : Json} {d : Document} (h : (Document.ofJson v).value = .ok d) :
    ∃ t, v.tree? = some t ∧ ∀ file r, t.callReport? {} = some r → d.RootReport file r := by
  obtain ⟨t, htree, hcalls⟩ := ofJson_calls h
  obtain ⟨t', htree', hroot⟩ := ofJson_hasTree h
  rw [htree] at htree'
  cases htree'
  have hwhole := (ofJson_forest h).isTree
  obtain ⟨n, hn, hparent⟩ := hwhole.top
  have hreport := Arena.value_callReport? hwhole hn hroot (s := {})
    (by rw [hparent]; exact d.arena.surrounds_none)
  refine ⟨t, htree, fun file r hr => ⟨hreport.trans hr, ?_⟩⟩
  rw [Document.calls, hcalls file, Tree.calls_eq, hr]
  rfl

/-- What is no call is not passed over. -/
theorem Tree.callee_of_ne {u : Tree} (h : u.form.kind ≠ .callExpression) :
    callee (some u) = some u := by
  obtain ⟨span, form⟩ := u
  cases form with
  | call style =>
    cases style with
    | call => exact absurd rfl h
    | construct => rfl
  | _ => rfl

/-- The tree of an object of another type is no call. -/
theorem Json.kind_ne_callExpression {c : Json} {u : Tree} (hu : c.tree? = some u)
    (hc : c.field? "type" ≠ some (.str "CallExpression")) : u.form.kind ≠ .callExpression := by
  obtain ⟨src, ts, hsrc, rfl, _⟩ := Json.exists_slots_of_tree? hu
  obtain ⟨rfl, htype⟩ := Json.source?_eq_some_iff.mp hsrc
  show (src.outline.refill ts).kind ≠ .callExpression
  rw [Form.kind_refill, Source.kind_outline]
  intro hkind
  have hname : src.kind.name = src.typeName := by
    refine Kind.name_ofName ?_
    show src.kind ≠ .other
    rw [hkind]
    decide
  rw [hkind] at hname
  rw [Json.field?, htype, ← hname] at hc
  exact hc rfl

/-! ## 3. Documents -/

/-- **A call and a construction of the same callee are loaded alike and named alike**, unless the
    callee is a call. -/
theorem callOf_names_alike (c : Json) :
    ((∃ d, (Document.ofJson (.callOf .call c)).value = .ok d) ↔
      ∃ e, (Document.ofJson (.callOf .construct c)).value = .ok e) ∧
    ∀ d e, (Document.ofJson (.callOf .call c)).value = .ok d →
      (Document.ofJson (.callOf .construct c)).value = .ok e →
      c.field? "type" ≠ some (.str "CallExpression") →
      ∀ file, ∃ r q, d.RootReport file r ∧ e.RootReport file q ∧
        r.style = .call ∧ q.style = .construct ∧
        r.fullName = q.fullName ∧ r.shortName = q.shortName := by
  have hloads : ∀ style style', (∃ d, (Document.ofJson (.callOf style c)).value = .ok d) →
      ∃ e, (Document.ofJson (.callOf style' c)).value = .ok e := by
    intro style style' h
    obtain ⟨d, hd⟩ := h
    have hvalid := validAt_callOf_iff.mp (ofJson_validAt hd)
    exact (validAt_callOf_iff.mpr hvalid).exists_ofJson
  refine ⟨⟨hloads .call .construct, hloads .construct .call⟩, ?_⟩
  intro d e hd he hc file
  have hnull : c ≠ .null := (validAt_callOf_iff.mp (ofJson_validAt hd)).2.1
  obtain ⟨t, ht, hcall⟩ := ofJson_rootReport hd
  obtain ⟨t', ht', hconstruct⟩ := ofJson_rootReport he
  obtain ⟨u, hu, rfl⟩ := Json.tree?_callOf hnull ht
  obtain ⟨u', hu', rfl⟩ := Json.tree?_callOf hnull ht'
  rw [hu] at hu'
  cases hu'
  -- the call is passed over on the one side, and nothing on the other
  have hcallee := Tree.callee_of_ne (Json.kind_ne_callExpression hu hc)
  refine ⟨_, _, hcall file _ rfl, hconstruct file _ rfl, rfl, rfl, ?_, ?_⟩
  · show Tree.qualifiedName _ = Tree.qualifiedName (some u)
    rw [Tree.qualifiedName, Tree.qualifiedName, hcallee]
    rfl
  · show Tree.shortName _ = Tree.shortName (some u)
    rw [Tree.shortName, Tree.shortName, hcallee]
    rfl

/-- The callee `a.b`. -/
def memberCallee : Json :=
  .obj [("type", .str "MemberExpression"),
    ("object", .obj [("type", .str "Identifier"), ("name", .str "a")]),
    ("property", .obj [("type", .str "Identifier"), ("name", .str "b")])]

/-- What is loaded of `a.b()` and of `new a.b()`. -/
def memberCalleeLoaded (style : CallStyle) : Document where
  arena := ⟨#[{ parent := some 2, form := .identifier "a" },
    { parent := some 2, form := .identifier "b" },
    { parent := some 3, form := .member (some 0) (some 1) false },
    { form := .call style (some 2) [] }]⟩
  root := 3

theorem ofJson_memberCallee (style : CallStyle) :
    (Document.ofJson (.callOf style memberCallee)).value = .ok (memberCalleeLoaded style) := by
  cases style <;> decide +kernel

theorem callOf_memberCallee_names_alike :
    (Document.ofJson (.callOf .call memberCallee)).value = .ok (memberCalleeLoaded .call) ∧
    (Document.ofJson (.callOf .construct memberCallee)).value =
      .ok (memberCalleeLoaded .construct) ∧
    memberCallee.field? "type" ≠ some (.str "CallExpression") ∧
    ∃ r q, (memberCalleeLoaded .call).RootReport "f.json" r ∧
      (memberCalleeLoaded .construct).RootReport "f.json" q ∧
      r.style = .call ∧ q.style = .construct ∧
      r.fullName = q.fullName ∧ r.shortName = q.shortName := by
  have htype : memberCallee.field? "type" ≠ some (.str "CallExpression") := by
    intro h
    have hname : "MemberExpression" = "CallExpression" := Json.str.inj (Option.some.inj h)
    exact absurd hname (by decide)
  have hcall := ofJson_memberCallee .call
  have hconstruct := ofJson_memberCallee .construct
  exact ⟨hcall, hconstruct, htype,
    (callOf_names_alike memberCallee).2 _ _ hcall hconstruct htype "f.json"⟩

/-- What is loaded of `a.b()()` and of `new (a.b())()`. -/
def nestedCallLoaded (style : CallStyle) : Document where
  arena := ⟨#[{ parent := some 2, form := .identifier "a" },
    { parent := some 2, form := .identifier "b" },
    { parent := some 3, form := .member (some 0) (some 1) false },
    { parent := some 4, form := .call .call (some 2) [] },
    { form := .call style (some 3) [] }]⟩
  root := 4

theorem ofJson_nestedCall (style : CallStyle) :
    (Document.ofJson (.callOf style (.callOf .call memberCallee))).value =
      .ok (nestedCallLoaded style) := by
  cases style <;> decide +kernel

/-- **A call of a call and its construction have different names**: `a.b()()` has the empty name
    and the last name `b`, and `new (a.b())()` the name `a.b` and the last name `.b`. -/
theorem callOf_nestedCall_names_differ :
    ¬ ∀ (c : Json) (d e : Document), (Document.ofJson (.callOf .call c)).value = .ok d →
      (Document.ofJson (.callOf .construct c)).value = .ok e →
      ∀ file, ∃ r q, d.RootReport file r ∧ e.RootReport file q ∧
        r.fullName = q.fullName ∧ r.shortName = q.shortName := by
  intro h
  obtain ⟨r, q, hr, hq, hfull, _⟩ :=
    h _ _ _ (ofJson_nestedCall .call) (ofJson_nestedCall .construct) "f.json"
  have hcall : ((nestedCallLoaded .call).calls "f.json").head?.map CallReport.fullName =
      some "" := by decide +kernel
  have hconstruct : ((nestedCallLoaded .construct).calls "f.json").head?.map CallReport.fullName =
      some "a.b" := by decide +kernel
  rw [hr.2, Option.map_some, hfull] at hcall
  rw [hq.2, Option.map_some] at hconstruct
  rw [hconstruct] at hcall
  exact absurd (Option.some.inj hcall) (by decide)

end CallNames
