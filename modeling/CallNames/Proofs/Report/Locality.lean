import CallNames.Proofs.Document.Origin
import CallNames.Proofs.Report.Calls

/-!
# Statements on their own

A part of a document can be loaded as a document of its own: it then has other handles, no parent,
and more room below the depth limit.

* `ValidAt.pred`: **what is valid somewhere is valid further up**, so that every statement of a
  document can be loaded alone;
* `exists_loaded`: alone, each statement has the calls of its tree;
* `calls_of_program`: the calls of a program are those of its statements, each loaded alone, one
  statement after the other.
-/

namespace CallNames

/-! ## 1. Parts of a document -/

/-- More values to load, more demands that can be met. -/
theorem Demand.Admits.mono {p q : Json → Prop} (hpq : ∀ v, p v → q v) {d : Demand}
    (h : d.Admits p) : d.Admits q := by
  cases d with
  | child step v => exact hpq v h
  | _ => exact h

theorem Conforms.mono {p q : Json → Prop} (hpq : ∀ v, p v → q v) {v : Json} (h : Conforms p v) :
    Conforms q v := by
  have hsrc : ∃ src, v.source? = some src := by
    obtain ⟨name, fields, htyped, _⟩ := h
    exact ⟨⟨name, fields⟩, Json.source?_eq_some_iff.mpr htyped⟩
  obtain ⟨src, hsrc⟩ := hsrc
  have hadmits := (admits_demands_iff_conforms hsrc).mpr h
  exact (admits_demands_iff_conforms hsrc).mp fun d hd => (hadmits d hd).mono hpq

/-- **What is valid at a level is valid one level further up.** -/
theorem ValidAt.pred {level : Nat} {v : Json} (h : ValidAt (level + 1) v) : ValidAt level v := by
  -- by the distance to the limit, which shrinks toward the children
  induction hk : nodeLimit + 1 - level generalizing level v with
  | zero =>
    have hlevel := (validAt_iff.mp h).1
    omega
  | succ k ih =>
    obtain ⟨hlevel, hconforms⟩ := validAt_iff.mp h
    have hbelow : ∀ w, ValidAt (level + 1 + 1) w → ValidAt (level + 1) w :=
      fun w hw => ih hw (by omega)
    exact validAt_iff.mpr ⟨by omega, hconforms.mono hbelow⟩

/-- A node of level 1 is loaded as a document. -/
theorem ValidAt.exists_ofJson {v : Json} (h : ValidAt 1 v) :
    ∃ d, (Document.ofJson v).value = .ok d := by
  obtain ⟨i, t, ht⟩ := (loadNode_isOk_iff (Nat.le_refl nodeLimit) v {}).mpr h
  exact ⟨⟨t.arena, i⟩, Document.ofJson_eq_ok_iff.mpr ⟨t, ht, rfl⟩⟩

/-! ## 2. Programs -/

/-- The document of a program. -/
def Json.program (statements : List Json) : Json :=
  .obj [("type", .str "Program"), ("body", .arr statements)]

/-- What a program is read from. -/
def Source.program (statements : List Json) : Source where
  typeName := "Program"
  fields := [("type", .str "Program"), ("body", .arr statements)]

theorem Json.source?_program (statements : List Json) :
    (Json.program statements).source? = some (.program statements) := rfl

theorem Source.outline_program (statements : List Json) :
    (Source.program statements).outline =
      .program (statements.map fun v => if v.isNull then none else some v) := rfl

/-- The statements of a valid program are valid. -/
theorem ValidAt.statements {level : Nat} {statements : List Json}
    (h : ValidAt level (.program statements)) :
    ∀ s ∈ statements, s ≠ .null ∧ ValidAt (level + 1) s := by
  obtain ⟨_, name, fields, ⟨⟨⟩, ⟨⟩⟩, hfields, _⟩ := validAt_iff.mp h
  have hbody := hfields ("body", .children false) List.mem_cons_self
  obtain ⟨items, ⟨⟩, hitems⟩ := hbody
  intro s hs
  rcases hitems s hs with ⟨⟨⟩, _⟩ | hs
  exact hs

/-- Where no statement is `null`, all statements are children. -/
theorem Source.children_program {statements : List Json} (h : ∀ s ∈ statements, s ≠ .null) :
    (Source.program statements).outline.children = statements := by
  rw [outline_program]
  show (statements.map _).filterMap id = statements
  rw [List.filterMap_map]
  refine (List.filterMap_congr fun s hs => ?_).trans List.filterMap_some
  cases s with
  | null => exact absurd rfl (h .null hs)
  | _ => rfl

/-! ## 3. Reports -/

/-- The calls of a program are those of its statements: a program names no function. -/
theorem Tree.calls_program (span : Span) (body : List (Option Tree)) :
    (Tree.node span (.program body)).calls {} = (body.filterMap id).flatMap (Tree.calls {}) := by
  rw [Tree.calls_eq]
  rfl

/-- **Values that can be loaded alone report, one after the other, the calls of their trees.** -/
theorem exists_loaded {vs : List Json} {ts : List Tree}
    (hts : List.Forall₂ (fun v t => Json.tree? v = some t) vs ts) (hvs : ∀ v ∈ vs, ValidAt 1 v) :
    ∃ ds, List.Forall₂ (fun v d => (Document.ofJson v).value = .ok d) vs ds ∧
      ∀ file, ds.flatMap (Document.calls file) = ts.flatMap (Tree.calls {}) := by
  induction hts with
  | nil => exact ⟨[], .nil, fun _ => rfl⟩
  | @cons v t vs ts ht _ ih =>
    obtain ⟨d, hd⟩ := (hvs v List.mem_cons_self).exists_ofJson
    obtain ⟨ds, hds, hcalls⟩ := ih fun w hw => hvs w (List.mem_cons_of_mem v hw)
    obtain ⟨t', ht', hfirst⟩ := ofJson_calls hd
    rw [ht] at ht'
    cases ht'
    refine ⟨d :: ds, .cons hd hds, fun file => ?_⟩
    rw [List.flatMap_cons, List.flatMap_cons, hcalls file, Document.calls, hfirst file]

/-- **Reports are local to their statement.** If a program is loaded, then each of its statements
    is loaded alone, and the calls of the program are the calls of its statements, one statement
    after the other. -/
theorem calls_of_program {statements : List Json} {d : Document}
    (h : (Document.ofJson (.program statements)).value = .ok d) :
    ∃ ds, List.Forall₂ (fun s e => (Document.ofJson s).value = .ok e) statements ds ∧
      ∀ file, d.calls file = ds.flatMap (Document.calls file) := by
  have hstatements := (ofJson_validAt h).statements
  obtain ⟨t, ht, hcalls⟩ := ofJson_calls h
  obtain ⟨src, ts, hsrc, rfl, hts⟩ := Json.exists_slots_of_tree? ht
  rw [Json.source?_program] at hsrc
  cases hsrc
  have htrees := forall₂_filterMap_id hts
  rw [← Form.children, Source.children_program fun s hs => (hstatements s hs).1] at htrees
  obtain ⟨ds, hds, hloaded⟩ := exists_loaded htrees fun s hs => (hstatements s hs).2.pred
  refine ⟨ds, hds, fun file => ?_⟩
  rw [hloaded file, Document.calls, hcalls file]
  exact Tree.calls_program _ ts

/-- The statements of `var k = () => f(x); new a.B()`. -/
def arrowAndConstruction : List Json :=
  [.obj [("type", .str "VariableDeclaration"), ("declarations", .arr
     [.obj [("type", .str "VariableDeclarator"),
       ("id", .obj [("type", .str "Identifier"), ("name", .str "k")]),
       ("init", .obj [("type", .str "ArrowFunctionExpression"), ("params", .arr []),
         ("body", .obj [("type", .str "CallExpression"), ("start", .ofNat 14), ("end", .ofNat 18),
           ("callee", .obj [("type", .str "Identifier"), ("name", .str "f")]),
           ("arguments", .arr [.obj [("type", .str "Identifier"), ("name", .str "x")]])])])]])],
   .obj [("type", .str "ExpressionStatement"),
     ("expression", .obj [("type", .str "NewExpression"), ("range", .arr [.ofNat 20, .ofNat 29]),
       ("callee", .obj [("type", .str "MemberExpression"),
         ("object", .obj [("type", .str "Identifier"), ("name", .str "a")]),
         ("property", .obj [("type", .str "Identifier"), ("name", .str "B")])])])]]

/-- What is loaded from the program. -/
def arrowAndConstructionLoaded : Document where
  arena := ⟨#[{ parent := some 5, form := .identifier "k" },
    { parent := some 3, form := .identifier "f" },
    { parent := some 3, form := .identifier "x" },
    { span := ⟨14, 18⟩, parent := some 4, form := .call .call (some 1) [some 2] },
    { parent := some 5, form := .function .arrow none [] (some 3) },
    { parent := some 6, form := .declarator (some 0) (some 4) },
    { parent := some 12, form := .declaration .varDecl [some 5] },
    { parent := some 9, form := .identifier "a" },
    { parent := some 9, form := .identifier "B" },
    { parent := some 10, form := .member (some 7) (some 8) false },
    { span := ⟨20, 29⟩, parent := some 11, form := .call .construct (some 9) [] },
    { parent := some 12, form := .expressionStatement (some 10) },
    { form := .program [some 6, some 11] }]⟩
  root := 12

theorem calls_of_arrowAndConstruction :
    (Document.ofJson (.program arrowAndConstruction)).value = .ok arrowAndConstructionLoaded ∧
    arrowAndConstructionLoaded.calls "k.json" =
      [{ style := .call, span := ⟨14, 18⟩, fullName := "f", shortName := some "f",
         enclosing := some "k", arguments := [⟨"x", "Identifier", true⟩] },
       { style := .construct, span := ⟨20, 29⟩, fullName := "a.B", shortName := some ".B",
         enclosing := none, arguments := [] }] ∧
    ∃ ds, List.Forall₂ (fun s e => (Document.ofJson s).value = .ok e) arrowAndConstruction ds ∧
      ∀ file, arrowAndConstructionLoaded.calls file = ds.flatMap (Document.calls file) := by
  have hloaded : (Document.ofJson (.program arrowAndConstruction)).value =
      .ok arrowAndConstructionLoaded := by decide +kernel
  exact ⟨hloaded, by decide +kernel, calls_of_program hloaded⟩

end CallNames
