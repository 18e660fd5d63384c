import CallNames.Proofs.Document.Outline

/-!
# Loading field by field

Every field of a node is read by an action of its own; here each of them is brought to the demands
of its field. `readForm_eq` puts them together: **reading a form is running through the demands of
the object**, whatever its kind, and after it no proof has to follow the loader kind by kind.
-/

namespace CallNames

/-! ## 1. States and sequences of actions -/

namespace LoadState

/-- The state in which the value behind a step is loaded. -/
def enter (s : LoadState) (step : Step) : LoadState := { s with path := step :: s.path }

/-- The state after the value behind the last step has been loaded. -/
def leave (s : LoadState) : LoadState := { s with path := s.path.tail }

/-- The state after an object has been announced. -/
def announced (s : LoadState) (src : Source) : LoadState :=
  match src.kind with
  | .other => { s with events := s.events.push (.keptUnmodelled src.typeName s.path.reverse) }
  | _ => s

/-- The state after a node has been stored. -/
def stored (s : LoadState) (n : Node) : LoadState := { s with arena := (s.arena.add n).2 }

@[simp] theorem arena_enter (s : LoadState) (step : Step) : (s.enter step).arena = s.arena := rfl

@[simp] theorem arena_leave (s : LoadState) : s.leave.arena = s.arena := rfl

@[simp] theorem arena_announced (s : LoadState) (src : Source) :
    (s.announced src).arena = s.arena := by
  unfold announced
  split <;> rfl

@[simp] theorem path_enter (s : LoadState) (step : Step) :
    (s.enter step).path = step :: s.path := rfl

@[simp] theorem path_leave (s : LoadState) : s.leave.path = s.path.tail := rfl

@[simp] theorem path_announced (s : LoadState) (src : Source) :
    (s.announced src).path = s.path := by
  unfold announced
  split <;> rfl

@[simp] theorem path_stored (s : LoadState) (n : Node) : (s.stored n).path = s.path := rfl

@[simp] theorem arena_stored (s : LoadState) (n : Node) :
    (s.stored n).arena = (s.arena.add n).2 := rfl

end LoadState

namespace Load

variable {α β : Type} {s u : LoadState} {e : DocumentError}

/-- Whatever should follow a refusal is not done. -/
@[simp] theorem refuse_bind (d : Defect) (f : α → Load β) : (refuse d >>= f) = refuse d := rfl

@[simp] theorem map_refuse (d : Defect) (f : α → β) : (f <$> (refuse d : Load α)) = refuse d := rfl

theorem bind_eq_ok_iff {x : Load α} {f : α → Load β} {b : β} :
    (x >>= f) s = .ok b u ↔ ∃ a t, x s = .ok a t ∧ f a t = .ok b u := by
  show EStateM.bind x f s = .ok b u ↔ _
  unfold EStateM.bind
  cases x s with
  | ok a t =>
    constructor
    · intro h
      exact ⟨a, t, rfl, h⟩
    · intro h
      obtain ⟨_, _, ⟨⟩, h⟩ := h
      exact h
  | error e t =>
    constructor
    · intro h
      cases h
    · intro h
      obtain ⟨_, _, ⟨⟩, _⟩ := h

theorem bind_eq_error_iff {x : Load α} {f : α → Load β} :
    (x >>= f) s = .error e u ↔
      x s = .error e u ∨ ∃ a t, x s = .ok a t ∧ f a t = .error e u := by
  show EStateM.bind x f s = .error e u ↔ _
  unfold EStateM.bind
  cases x s with
  | ok a t =>
    constructor
    · intro h
      exact .inr ⟨a, t, rfl, h⟩
    · intro h
      rcases h with ⟨⟨⟩⟩ | ⟨_, _, ⟨⟩, h⟩
      exact h
  | error e' t =>
    constructor
    · intro h
      cases h
      exact .inl rfl
    · intro h
      rcases h with ⟨⟨⟩⟩ | ⟨_, _, ⟨⟩, _⟩
      rfl

theorem map_eq_ok_iff {x : Load α} {f : α → β} {b : β} :
    (f <$> x) s = .ok b u ↔ ∃ a, x s = .ok a u ∧ b = f a := by
  rw [map_eq_pure_bind, bind_eq_ok_iff]
  constructor
  · intro h
    obtain ⟨a, t, hx, ⟨⟩⟩ := h
    exact ⟨a, hx, rfl⟩
  · intro h
    obtain ⟨a, hx, rfl⟩ := h
    exact ⟨a, u, hx, rfl⟩

theorem map_eq_error_iff {x : Load α} {f : α → β} :
    (f <$> x) s = .error e u ↔ x s = .error e u := by
  rw [map_eq_pure_bind, bind_eq_error_iff]
  constructor
  · intro h
    rcases h with hx | ⟨_, _, _, ⟨⟩⟩
    exact hx
  · exact .inl

theorem within_of_ok {step : Step} {x : Load α} {a : α} (h : x (s.enter step) = .ok a u) :
    within step x s = .ok a u.leave := by
  unfold LoadState.enter at h
  unfold within
  rw [h]
  rfl

theorem within_of_error {step : Step} {x : Load α} (h : x (s.enter step) = .error e u) :
    within step x s = .error e u.leave := by
  unfold LoadState.enter at h
  unfold within
  rw [h]
  rfl

theorem within_eq_ok_iff {step : Step} {x : Load α} {a : α} :
    within step x s = .ok a u ↔ ∃ t, x (s.enter step) = .ok a t ∧ u = t.leave := by
  cases hx : x (s.enter step) with
  | ok a' t =>
    rw [within_of_ok hx]
    constructor
    · intro h
      cases h
      exact ⟨t, rfl, rfl⟩
    · intro h
      obtain ⟨_, ⟨⟩, rfl⟩ := h
      rfl
  | error e t =>
    rw [within_of_error hx]
    constructor
    · intro h
      cases h
    · intro h
      obtain ⟨_, ⟨⟩, _⟩ := h

theorem within_eq_error_iff {step : Step} {x : Load α} :
    within step x s = .error e u ↔ ∃ t, x (s.enter step) = .error e t ∧ u = t.leave := by
  cases hx : x (s.enter step) with
  | ok a t =>
    rw [within_of_ok hx]
    constructor
    · intro h
      cases h
    · intro h
      obtain ⟨_, ⟨⟩, _⟩ := h
  | error e' t =>
    rw [within_of_error hx]
    constructor
    · intro h
      cases h
      exact ⟨t, rfl, rfl⟩
    · intro h
      obtain ⟨_, ⟨⟩, rfl⟩ := h
      rfl

end Load

/-! ## 2. Fields as demands -/

@[simp] theorem Demand.load_defect (load : Json → Load Nat) (d : Defect) :
    (Demand.defect d).load load = Load.refuse d := rfl

namespace Source

variable (src : Source) (load : Json → Load Nat)

/-- Reports an object that is kept without a model. -/
def announce : Load Unit :=
  match src.kind with
  | .other => do Load.emit (.keptUnmodelled src.typeName (← Load.here))
  | _ => pure ()

theorem announce_run (s : LoadState) : src.announce s = .ok () (s.announced src) := by
  unfold announce LoadState.announced
  cases src.kind <;> rfl

/-! A field for one child is one demand. -/

theorem required_eq (key : String) :
    ∃ d, src.fieldDemands (key, .child) = [d] ∧ src.required load key = d.load load := by
  unfold fieldDemands fieldDefect? required
  cases src.field? key with
  | none => exact ⟨_, rfl, rfl⟩
  | some v => cases v <;> exact ⟨_, rfl, rfl⟩

theorem optional_eq (key : String) :
    ∃ d, src.fieldDemands (key, .optionalChild) = [d] ∧ src.optional load key = d.load load := by
  unfold fieldDemands fieldDefect? optional
  cases src.field? key with
  | none => exact ⟨_, rfl, rfl⟩
  | some v => cases v <;> exact ⟨_, rfl, rfl⟩

/-! A field for a list of children is one demand for each entry. -/

theorem entries_eq (holes : Bool) (key : String) (items : List Json) :
    entries load holes key items = (Demand.ofEntries holes key items).mapM (Demand.load load) := by
  unfold entries Demand.ofEntries
  rw [List.mapM_map]
  congr 1
  funext item
  obtain ⟨v, i⟩ := item
  cases v <;> cases holes <;> rfl

theorem list_eq (holes : Bool) (key : String) :
    src.list load holes key =
      (src.fieldDemands (key, .children holes)).mapM (Demand.load load) := by
  unfold fieldDemands fieldDefect? list
  cases src.field? key with
  | none => rfl
  | some v =>
    cases v with
    | arr items => exact entries_eq load holes key items
    | _ => rfl

theorem optionalList_eq (key : String) :
    src.optionalList load key =
      (src.fieldDemands (key, .optionalChildren)).mapM (Demand.load load) := by
  unfold fieldDemands fieldDefect? optionalList list
  cases src.field? key with
  | none => rfl
  | some v =>
    cases v with
    | arr items => exact entries_eq load false key items
    | _ => rfl

theorem allChildren_eq : src.allChildren load = src.siteDemands.mapM (Demand.load load) := by
  unfold allChildren siteDemands
  rw [List.mapM_map]
  rfl

/-! A field without children is refused if it has a defect, and else read without any demand. -/

/-- The value of a field that has been checked. -/
def checked {α : Type} (field : String × Rule) (a : α) : Load α :=
  match src.fieldDefect? field with
  | some d => Load.refuse d
  | none => pure a

theorem checked_cases {α : Type} (field : String × Rule) (a : α)
    (h : field.2.slotDemands field.1 (src.field? field.1) = []) :
    (∃ d, src.fieldDemands field = [.defect d] ∧ src.checked field a = Load.refuse d) ∨
    (src.fieldDemands field = [] ∧ src.checked field a = pure a) := by
  unfold fieldDemands checked
  cases src.fieldDefect? field with
  | none => exact .inr ⟨h, rfl⟩
  | some d => exact .inl ⟨d, rfl, rfl⟩

theorem flag_eq (key : String) : src.flag key = src.checked (key, .flag) (src.flagAt key) := by
  unfold checked fieldDefect? flag flagAt
  cases src.field? key with
  | none => rfl
  | some v => cases v <;> rfl

theorem operator_eq :
    src.operator = src.checked ("operator", .operator) (src.textAt "operator" "=") := by
  unfold checked fieldDefect? operator textAt text
  cases src.field? "operator" with
  | none => rfl
  | some v => cases v <;> rfl

theorem identifierName_eq :
    src.identifierName = src.checked ("name", .name) (src.textAt "name" "") := by
  unfold checked fieldDefect? identifierName textAt text
  cases src.field? "name" with
  | none => rfl
  | some v =>
    cases v with
    | str s => cases hs : s.isEmpty <;> simp_all [Rule.defect?]
    | _ => rfl

theorem declarationKind_eq :
    src.declarationKind = src.checked ("kind", .keyword) (src.keywordAt "kind") := by
  unfold checked fieldDefect? declarationKind
  cases hf : src.field? "kind" with
  | none =>
    have hmissing : src.keywordAt "kind" = .varDecl := by
      rw [keywordAt, textAt, hf]
      rfl
    rw [hmissing]
    rfl
  | some v =>
    cases v with
    | str s =>
      simp only [Rule.defect?, Json.text?, Option.bind_some]
      cases hk : DeclarationKind.ofKeyword? s with
      | none => rfl
      | some k => rw [keywordAt_of_ofKeyword? hf hk]
    | _ => rfl

/-- **Reading a form is running through the demands of the object** and putting what comes of them
    into its outline. -/
theorem readForm_eq :
    src.readForm load =
      src.announce >>= fun _ => src.outline.refill <$> src.demands.mapM (Demand.load load) := by
  unfold readForm announce demands outline
  rw [kindNamed_eq]
  cases src.kind with
  | program | blockStatement | objectExpression | arrayExpression =>
    simp only [Kind.schema, List.flatMap_cons, List.flatMap_nil, List.append_nil, ← list_eq]
    rfl
  | expressionStatement =>
    obtain ⟨d, h, e⟩ := src.required_eq load "expression"
    simp [Kind.schema, h, e, Form.refill, Form.slotAt]
  | returnStatement =>
    obtain ⟨d, h, e⟩ := src.optional_eq load "argument"
    simp [Kind.schema, h, e, Form.refill, Form.slotAt]
  | variableDeclaration =>
    rcases src.checked_cases ("kind", .keyword) (src.keywordAt "kind") rfl with
      ⟨d, h, e⟩ | ⟨h, e⟩
    · simp [Kind.schema, declarationKind_eq, h, e]
    · simp only [Kind.schema, List.flatMap_cons, List.flatMap_nil, List.append_nil, h,
        declarationKind_eq, e, List.nil_append, ← list_eq]
      rfl
  | variableDeclarator =>
    obtain ⟨d₁, h₁, e₁⟩ := src.required_eq load "id"
    obtain ⟨d₂, h₂, e₂⟩ := src.optional_eq load "init"
    simp [Kind.schema, h₁, h₂, e₁, e₂, Form.refill, Form.slotAt]
  | identifier =>
    rcases src.checked_cases ("name", .name) (src.textAt "name" "") rfl with
      ⟨d, h, e⟩ | ⟨h, e⟩
    · simp [Kind.schema, identifierName_eq, h, e]
    · simp [Kind.schema, identifierName_eq, h, e, Form.refill]
  | thisExpression => simp [Kind.schema, Form.refill]
  | literal => simp [Kind.schema, Form.refill, literalText_eq]
  | memberExpression =>
    obtain ⟨d₁, h₁, e₁⟩ := src.required_eq load "object"
    obtain ⟨d₂, h₂, e₂⟩ := src.required_eq load "property"
    rcases src.checked_cases ("computed", .flag) (src.flagAt "computed") rfl with
      ⟨d, h, e⟩ | ⟨h, e⟩
    · simp [Kind.schema, flag_eq, h₁, h₂, e₁, e₂, h, e]
    · simp [Kind.schema, flag_eq, h₁, h₂, e₁, e₂, h, e, Form.refill, Form.slotAt]
  | callExpression | newExpression =>
    obtain ⟨d, h, e⟩ := src.required_eq load "callee"
    simp [Kind.schema, call, h, e, ← optionalList_eq, Form.refill, Form.slotAt]
  | functionExpression | functionDeclaration | arrowFunctionExpression =>
    obtain ⟨d₁, h₁, e₁⟩ := src.optional_eq load "id"
    obtain ⟨d₂, h₂, e₂⟩ := src.required_eq load "body"
    simp [Kind.schema, function, h₁, h₂, e₁, e₂, ← list_eq, Form.refill, Form.slotAt]
  | assignmentExpression =>
    obtain ⟨d₁, h₁, e₁⟩ := src.required_eq load "left"
    obtain ⟨d₂, h₂, e₂⟩ := src.required_eq load "right"
    rcases src.checked_cases ("operator", .operator) (src.textAt "operator" "=") rfl with
      ⟨d, h, e⟩ | ⟨h, e⟩
    · simp [Kind.schema, operator_eq, h, e]
    · simp [Kind.schema, operator_eq, h₁, h₂, e₁, e₂, h, e, Form.refill, Form.slotAt]
  | property =>
    obtain ⟨d₁, h₁, e₁⟩ := src.required_eq load "key"
    obtain ⟨d₂, h₂, e₂⟩ := src.required_eq load "value"
    rcases src.checked_cases ("computed", .flag) (src.flagAt "computed") rfl with
      ⟨d, h, e⟩ | ⟨h, e⟩
    · simp [Kind.schema, flag_eq, h₁, h₂, e₁, e₂, h, e]
    · simp [Kind.schema, flag_eq, h₁, h₂, e₁, e₂, h, e, Form.refill, Form.slotAt]
  | conditionalExpression =>
    obtain ⟨d₁, h₁, e₁⟩ := src.required_eq load "test"
    obtain ⟨d₂, h₂, e₂⟩ := src.required_eq load "consequent"
    obtain ⟨d₃, h₃, e₃⟩ := src.required_eq load "alternate"
    simp [Kind.schema, h₁, h₂, h₃, e₁, e₂, e₃, Form.refill, Form.slotAt]
  | other =>
    simp only [allChildren_eq]
    rfl

end Source

end CallNames
