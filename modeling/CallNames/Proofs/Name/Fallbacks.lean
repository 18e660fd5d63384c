import CallNames.Proofs.Name.Agreement
import CallNames.Proofs.Name.FromAbove

/-!
# Events explain missing names

Whoever resolves a name never fails: where there is no name, a substitute is given and an event
tells why. In a loaded document the events say exactly what is missing.

* `Explains`: one event where something is missing, and none where it is there;
* `events_identifier`, `events_shortName` and `events_nodeName`: three of the names rest on one
  search for an identifier, which tells the node that it reached;
* `events_qualifiedName`: **one event for each key without a name**, from the outermost one inward;
* `NearestFunction` is the function around a node, found by parents alone. `Untargeted` says that
  nothing names it, which is when the search for its name has something to tell;
* `ofJson_events_explain`: so it is for every node of a loaded document, whose names are not empty
  and whose upward walks are never cut.
-/

namespace CallNames

/-- **One event where something is missing, and none where it is there.** -/
def Explains (missing : Prop) (event : Event) (events : List Event) : Prop :=
  (missing → events = [event]) ∧ (¬ missing → events = [])

theorem Explains.congr {p q : Prop} {event : Event} {events : List Event} (hpq : p ↔ q)
    (h : Explains p event events) : Explains q event events :=
  ⟨fun hq => h.1 (hpq.mpr hq), fun hq => h.2 fun hp => hq (hpq.mp hp)⟩

theorem Explains.eq_of_mem {missing : Prop} {event e : Event} {events : List Event}
    (h : Explains missing event events) (he : e ∈ events) : e = event := by
  by_cases hp : missing
  · rw [h.1 hp] at he
    exact List.mem_singleton.mp he
  · rw [h.2 hp] at he
    cases he

namespace Arena

variable {a : Arena} {r : Ref} {root : Nat}

/-! ## 1. Identifiers -/

/-- **A search for an identifier tells what it reached if that is none.** -/
theorem events_identifier (a : Arena) (r : Ref) :
    Explains ((a.identifier r).value = none)
      (.noIdentifier r (a.typeName? (a.namingPart (a.callee r)))) (a.identifier r).events := by
  unfold Explains identifier typeName?
  dsimp only
  generalize a.namingPart (a.callee r) = part
  cases hform : a.form? part with
  | none => exact ⟨fun _ => rfl, fun h => absurd rfl h⟩
  | some form =>
    cases form with
    | identifier name =>
      refine ⟨fun h => ?_, fun _ => rfl⟩
      rw [show part = none from h] at hform
      cases hform
    | _ => exact ⟨fun _ => rfl, fun h => absurd rfl h⟩

/-- The identifier of a node is missing exactly if the part that names it has no name. -/
theorem value_identifier_eq_none_iff :
    (a.identifier r).value = none ↔ a.identifierName? (a.identifier r).value = none := by
  constructor
  · intro h
    rw [h]
    rfl
  · intro h
    rcases identifier_cases a r with ⟨i, name, hi, hname, _⟩ | ⟨hnone, _⟩
    · rw [hi, hname] at h
      cases h
    · exact hnone

theorem events_shortName (a : Arena) (r : Ref) :
    Explains ((a.shortName r).value = none)
      (.noIdentifier (a.callee r) (a.typeName? (a.namingPart (a.callee (a.callee r)))))
      (a.shortName r).events := by
  have hvalue : (a.identifier (a.callee r)).value = none ↔ (a.shortName r).value = none := by
    rw [value_identifier_eq_none_iff]
    exact Option.map_eq_none_iff.symm
  have hevents : (a.shortName r).events = (a.identifier (a.callee r)).events := List.append_nil _
  rw [hevents]
  exact (events_identifier a (a.callee r)).congr hvalue

/-- No identifier has an empty name. -/
def NoEmptyNames (a : Arena) : Prop := ∀ r, a.identifierName? r ≠ some ""

theorem events_nodeName (ha : a.NoEmptyNames) (r : Ref) :
    Explains ((a.nodeName r).value = "") (.noIdentifier r (a.typeName? (a.namingPart (a.callee r))))
      (a.nodeName r).events := by
  by_cases hthis : a.form? r = some .this
  · have hname : a.nodeName r = ⟨"this", []⟩ := by rw [nodeName, hthis]
    rw [hname]
    exact ⟨fun h => absurd h (by decide), fun _ => rfl⟩
  · have hname : a.nodeName r =
        a.identifier r >>= fun named => pure ((a.identifierName? named).getD "") := by
      unfold nodeName
      split
      · rename_i h
        exact absurd h hthis
      · rfl
    have hevents : (a.nodeName r).events = (a.identifier r).events := by
      rw [hname, Traced.events_bind, Traced.events_pure, List.append_nil]
    rw [hevents]
    refine (events_identifier a r).congr ?_
    rw [hname, Traced.value_bind, Traced.value_pure, value_identifier_eq_none_iff]
    cases hnamed : a.identifierName? (a.identifier r).value with
    | none => exact ⟨fun _ => rfl, fun _ => rfl⟩
    | some name =>
      refine ⟨fun h => absurd h (by simp), fun h => ?_⟩
      rw [show name = "" from h] at hnamed
      exact absurd hnamed (ha _)

/-! ## 2. Chains -/

/-- Whether a key has no name. -/
def isNameless (a : Arena) (key : Ref) : Bool := (a.identifierName? key).isNone

theorem events_keyName (a : Arena) (key : Ref) :
    (a.keyName key).events =
      if a.isNameless key then [.emptySegment key (a.typeName? key)] else [] := by
  unfold keyName isNameless
  cases a.identifierName? key <;> rfl

/-- **One event for each key without a name**, from the outermost one inward. -/
theorem events_qualifiedName (a : Arena) (r : Ref) :
    (a.qualifiedName r).events =
      ((a.chain (a.callee r)).keys.reverse.filter a.isNameless).map fun key =>
        .emptySegment key (a.typeName? key) := by
  have hkeys : (a.qualifiedName r).events =
      ((a.chain (a.callee r)).keys.reverse.map a.keyName).flatMap Traced.events := by
    show (_ ++ []) ++ [] = _
    rw [List.append_nil, List.append_nil]
    rfl
  rw [hkeys]
  induction (a.chain (a.callee r)).keys.reverse with
  | nil => rfl
  | cons key keys ih =>
    rw [List.map_cons, List.flatMap_cons, ih, events_keyName, List.filter_cons]
    split <;> rfl

/-- The keys without a name are the empty parts of the qualified name. -/
theorem count_chainNames (ha : a.NoEmptyNames) (c : Chain) :
    (a.chainNames c).value.count "" = c.keys.countP a.isNameless := by
  have hbase : (a.identifierName? c.base).toList.count "" = 0 := by
    refine List.count_eq_zero.mpr fun h => ha c.base ?_
    simpa using h
  have hkey : ∀ key, ((a.identifierName? key).getD "" == "") = a.isNameless key := by
    intro key
    unfold isNameless
    cases hname : a.identifierName? key with
    | none => rfl
    | some name =>
      refine beq_eq_false_iff_ne.mpr fun h => ha key ?_
      rw [hname, show name = "" from h]
  rw [value_chainNames, List.count_append, hbase, Nat.zero_add, List.count, List.countP_map]
  exact congrArg (List.countP · c.keys) (funext hkey)

/-! ## 3. Enclosing functions -/

/-- **The nearest function from a node upward**, the node itself included, and its own name. -/
inductive NearestFunction (a : Arena) : Nat → Nat → Ref → Prop where
  | here {i : Nat} {style : FunctionStyle} {id body : Ref} {params : List Ref}
      (h : a.form? (some i) = some (.function style id params body)) : NearestFunction a i i id
  | above {i p f : Nat} {id : Ref} (h : a.isFunction i = false) (hp : a.parent? (some i) = some p)
      (rest : NearestFunction a p f id) : NearestFunction a i f id

/-- **Nothing names the function around a node**: it has no name of its own, it is not the whole
    document, and what it stands in is neither a declarator nor an assignment. -/
structure Untargeted (a : Arena) (root i f : Nat) : Prop where
  anonymous : a.NearestFunction i f none
  inner : f ≠ root
  elsewhere : ∀ form, a.form? (a.parent? (some f)) = some form →
    form.kind ≠ .variableDeclarator ∧ form.kind ≠ .assignmentExpression

/-- An upward walk that ends within its bound is not cut, wherever it stops. -/
theorem Climbs.events_climbTo {β : Type} (f : Nat → Node → Option β) {l : List Nat}
    (h : a.Climbs r l) {room : Nat} (hroom : l.length ≤ room) :
    (a.climbTo f room r).events = [] := by
  induction h generalizing room with
  | @stop r hr =>
    have hlookup := lookup?_eq_none_iff.mpr hr
    cases room with
    | zero => simp [climbTo, hlookup]
    | succ room =>
      cases r with
      | none => rfl
      | some i =>
        rw [get?_some] at hr
        simp [climbTo, hr]
  | @node i n l hn _ ih =>
    obtain ⟨k, rfl⟩ : ∃ k, room = k + 1 := ⟨room - 1, by rw [List.length_cons] at hroom; omega⟩
    have hk : l.length ≤ k := Nat.le_of_succ_le_succ hroom
    rw [climbTo, hn]
    dsimp only
    cases f i n with
    | none => exact ih hk
    | some b => rfl

/-- **In a tree, no search upward is ever cut.** -/
theorem IsTree.events_nearest? {β : Type} (h : a.IsTree root) (f : Nat → Node → Option β) {i : Nat}
    {n : Node} (hn : a.node? i = some n) : (a.nearest? f (some i)).events = [] := by
  obtain ⟨l, hl, hlength⟩ := h.exists_climbs hn
  exact hl.events_climbTo f (by omega)

section Nearest

variable {i f : Nat} {id : Ref}

theorem isFunction_of_function {style : FunctionStyle} {id' body : Ref} {params : List Ref}
    (h : a.form? (some i) = some (.function style id' params body)) : a.isFunction i = true := by
  rw [isFunction_of_form? h]
  cases style <;> rfl

theorem nearestFunction_of_function {style : FunctionStyle} {id' body : Ref} {params : List Ref}
    (h : a.form? (some i) = some (.function style id' params body)) :
    a.NearestFunction i f id ↔ i = f ∧ id' = id := by
  constructor
  · intro hnearest
    cases hnearest with
    | here h' =>
      rw [h] at h'
      cases h'
      exact ⟨rfl, rfl⟩
    | above hno _ _ =>
      rw [isFunction_of_function h] at hno
      cases hno
  · rintro ⟨rfl, rfl⟩
    exact .here h

theorem nearestFunction_of_not_function (h : a.isFunction i = false) :
    a.NearestFunction i f id ↔ ∃ p, a.parent? (some i) = some p ∧ a.NearestFunction p f id := by
  constructor
  · intro hnearest
    cases hnearest with
    | here h' =>
      rw [isFunction_of_function h'] at h
      cases h
    | above _ hp rest => exact ⟨_, hp, rest⟩
  · rintro ⟨p, hp, rest⟩
    exact .above h hp rest

/-- There is one nearest function at most. -/
theorem NearestFunction.unique {f' : Nat} {id' : Ref} (h : a.NearestFunction i f id)
    (h' : a.NearestFunction i f' id') : f = f' ∧ id = id' := by
  induction h with
  | here hform => exact (nearestFunction_of_function hform).mp h'
  | above hno hp _ ih =>
    obtain ⟨p, hp', rest⟩ := (nearestFunction_of_not_function hno).mp h'
    rw [hp] at hp'
    cases hp'
    exact ih rest

theorem NearestFunction.exists_node? (h : a.NearestFunction i f id) : ∃ n, a.node? f = some n := by
  induction h with
  | here hform =>
    obtain ⟨n, hn, _⟩ := Option.map_eq_some_iff.mp hform
    exact ⟨n, hn⟩
  | above _ _ _ ih => exact ih

/-- A node is a function, which ends the search, or the search passes it by. -/
theorem functionAt?_cases {n : Node} (hn : a.node? i = some n) :
    (∃ style id params body, a.form? (some i) = some (.function style id params body) ∧
      functionAt? i n = some (i, id)) ∨
    (a.isFunction i = false ∧ functionAt? i n = none) := by
  have hform := form?_of_node? hn
  have hfunction := isFunction_of_form? hform
  unfold functionAt?
  rw [hform]
  cases hf : n.form with
  | function style id params body => exact .inl ⟨style, id, params, body, rfl, rfl⟩
  | call style callee arguments =>
    rw [hf] at hfunction
    cases style <;> exact .inr ⟨hfunction, rfl⟩
  | _ =>
    rw [hf] at hfunction
    exact .inr ⟨hfunction, rfl⟩

theorem value_nearest?_none {β : Type} (a : Arena) (g : Nat → Node → Option β) :
    (a.nearest? g none).value = none := by
  unfold nearest?
  cases a.size <;> rfl

/-- **The search upward finds the nearest function**: both go from a node to its parent. -/
theorem IsTree.value_nearest?_function (h : a.IsTree root) {l : List Nat} (hl : a.Climbs r l) :
    ∀ i n, r = some i → a.node? i = some n →
      ((a.nearest? functionAt? (some i)).value = some (f, id) ↔ a.NearestFunction i f id) := by
  induction hl with
  | stop hr =>
    intro i n e hn
    rw [e, get?_some, hn] at hr
    cases hr
  | @node j m l hm rest ih =>
    rintro i n ⟨⟩ hn
    rw [hn] at hm
    cases hm
    rw [h.value_nearest? functionAt? hn]
    rcases functionAt?_cases hn with ⟨style, id', params, body, hform, e⟩ | ⟨hfunction, e⟩
    · rw [e, Option.some_or, nearestFunction_of_function hform, Option.some.injEq, Prod.mk.injEq]
    · rw [e, Option.none_or, nearestFunction_of_not_function hfunction, parent?_of_node? hn]
      rcases h.parent_cases hn with ⟨_, hp⟩ | ⟨p, m, hp, _, hm, _⟩
      · rw [hp, value_nearest?_none]
        simp
      · rw [hp, ih p m hp hm]
        simp

end Nearest

/-- **What the search for a target tells**: nothing, unless the parent is some other node. -/
theorem events_assignmentTarget (a : Arena) (f : Nat) :
    (∃ form, a.form? (a.parent? (some f)) = some form ∧ form.kind ≠ .variableDeclarator ∧
      form.kind ≠ .assignmentExpression ∧
      (a.assignmentTarget f).events = [.noTarget f form.typeName]) ∨
    ((∀ form, a.form? (a.parent? (some f)) = some form →
      form.kind = .variableDeclarator ∨ form.kind = .assignmentExpression) ∧
      (a.assignmentTarget f).events = []) := by
  unfold assignmentTarget
  cases a.form? (a.parent? (some f)) with
  | none => exact .inr ⟨fun _ h => (by cases h), rfl⟩
  | some form =>
    cases form with
    | declarator id init => exact .inr ⟨fun _ h => .inl (by cases h; rfl), rfl⟩
    | assignment operator left right => exact .inr ⟨fun _ h => .inr (by cases h; rfl), rfl⟩
    | call style | function style => cases style <;> exact .inl ⟨_, rfl, nofun, nofun, rfl⟩
    | _ => exact .inl ⟨_, rfl, nofun, nofun, rfl⟩

/-- Every node but the root stands in another one. -/
theorem IsTree.form?_parent? (h : a.IsTree root) {f : Nat} {n : Node} (hn : a.node? f = some n) :
    (f = root ∧ a.form? (a.parent? (some f)) = none) ∨
    (f ≠ root ∧ ∃ form, a.form? (a.parent? (some f)) = some form) := by
  rw [parent?_of_node? hn]
  rcases h.parent_cases hn with ⟨hroot, hp⟩ | ⟨p, m, hp, hlt, hm, _⟩
  · rw [hp]
    exact .inl ⟨hroot, rfl⟩
  · have hlast := h.last
    have hsize := lt_size_of_node? hm
    rw [hp]
    exact .inr ⟨by omega, m.form, form?_of_node? hm⟩

/-- A function without a name is told if nothing names it, and else not. -/
theorem IsTree.untargeted_cases (h : a.IsTree root) {i f : Nat} (hf : a.NearestFunction i f none) :
    (∃ form, a.Untargeted root i f ∧ a.form? (a.parent? (some f)) = some form ∧
      (a.assignmentTarget f).events = [.noTarget f form.typeName]) ∨
    ((∀ f', ¬ a.Untargeted root i f') ∧ (a.assignmentTarget f).events = []) := by
  obtain ⟨n, hn⟩ := hf.exists_node?
  rcases events_assignmentTarget a f with ⟨form, hform, hdecl, hassign, e⟩ | ⟨hnamed, e⟩
  · rcases h.form?_parent? hn with ⟨_, hnone⟩ | ⟨hroot, _⟩
    · rw [hform] at hnone
      cases hnone
    · refine .inl ⟨form, ⟨hf, hroot, fun form' hform' => ?_⟩, hform, e⟩
      rw [hform] at hform'
      cases hform'
      exact ⟨hdecl, hassign⟩
  · refine .inr ⟨fun f' hf' => ?_, e⟩
    obtain ⟨rfl, _⟩ := hf.unique hf'.anonymous
    rcases h.form?_parent? hn with ⟨hroot, _⟩ | ⟨_, form, hform⟩
    · exact hf'.inner hroot
    · obtain ⟨hdecl, hassign⟩ := hf'.elsewhere form hform
      rcases hnamed form hform with hkind | hkind
      · exact hdecl hkind
      · exact hassign hkind

/-- **The search for the name of the enclosing function tells of a function that nothing names**,
    and of nothing else. -/
theorem IsTree.events_enclosingName (h : a.IsTree root) {i : Nat} {n : Node}
    (hn : a.node? i = some n) :
    (∃ f form, a.Untargeted root i f ∧ a.form? (a.parent? (some f)) = some form ∧
      (a.enclosingName (some i)).events = [.noTarget f form.typeName]) ∨
    ((∀ f, ¬ a.Untargeted root i f) ∧ (a.enclosingName (some i)).events = []) := by
  obtain ⟨l, hl, _⟩ := h.exists_climbs hn
  have hnearest : ∀ f id, (a.nearest? functionAt? (some i)).value = some (f, id) ↔
      a.NearestFunction i f id := fun f id => h.value_nearest?_function hl i n rfl hn
  unfold enclosingName
  rw [Traced.events_bind, h.events_nearest? functionAt? hn, List.nil_append]
  cases hvalue : (a.nearest? functionAt? (some i)).value with
  | none =>
    refine .inr ⟨fun f hf => ?_, rfl⟩
    have hsome := (hnearest f none).mpr hf.anonymous
    rw [hvalue] at hsome
    cases hsome
  | some found =>
    obtain ⟨f, id⟩ := found
    have hf := (hnearest f id).mp hvalue
    cases id with
    | none =>
      rcases h.untargeted_cases hf with ⟨form, hcase⟩ | hcase
      · exact .inl ⟨f, form, hcase⟩
      · exact .inr hcase
    | some id =>
      refine .inr ⟨fun f' hf' => ?_, rfl⟩
      obtain ⟨_, e⟩ := hf.unique hf'.anonymous
      cases e

/-! ## 4. All five -/

/-- **The events of a node's names explain what is missing.** -/
structure EventsExplain (a : Arena) (root i : Nat) : Prop where
  /-- One event for a missing identifier. -/
  identifier : ∃ reached, Explains ((a.identifier (some i)).value = none)
    (.noIdentifier (some i) reached) (a.identifier (some i)).events
  /-- One event for a missing last name. -/
  shortName : ∃ reached, Explains ((a.shortName (some i)).value = none)
    (.noIdentifier (a.callee (some i)) reached) (a.shortName (some i)).events
  /-- One event for an empty name. -/
  nodeName : ∃ reached, Explains ((a.nodeName (some i)).value = "")
    (.noIdentifier (some i) reached) (a.nodeName (some i)).events
  /-- One event for each empty part of the qualified name, told with its key; the keys come in the
      order in which the loop along the chain passes them, from the outermost one inward. -/
  qualifiedName : ∃ c names, a.ChainEnds ⟨a.callee (some i), []⟩ c ∧
    a.Spells (a.callee (some i)) names ∧
    (a.qualifiedName (some i)).events = ((c.keys.reverse.filter a.isNameless).map fun key =>
      .emptySegment key (a.typeName? key)) ∧
    (a.qualifiedName (some i)).events.length = names.count ""
  /-- One event for an enclosing function that nothing names. -/
  untargeted : ∀ f, a.Untargeted root i f → ∃ form, a.form? (a.parent? (some f)) = some form ∧
    (a.enclosingName (some i)).events = [.noTarget f form.typeName]
  /-- No event where there is no such function. -/
  targeted : (∀ f, ¬ a.Untargeted root i f) → (a.enclosingName (some i)).events = []
  /-- No upward walk is cut. -/
  uncut : ∀ e ∈ (a.identifier (some i)).events ++ (a.shortName (some i)).events ++
    (a.nodeName (some i)).events ++ (a.qualifiedName (some i)).events ++
    (a.enclosingName (some i)).events, e.message ≠ "ancestor walk longer than the arena"

/-- A walk that was cut is told by its own event only. -/
theorem message_eq_walkCut_iff {e : Event} :
    e.message = "ancestor walk longer than the arena" ↔ ∃ i, e = .walkCut i := by
  cases e <;> simp [Event.message]

/-- **In a tree without empty names the events explain what is missing**, for every node. -/
theorem IsTree.eventsExplain (h : a.IsTree root) (hnames : a.NoEmptyNames) {i : Nat} {n : Node}
    (hn : a.node? i = some n) : a.EventsExplain root i := by
  have hchain := chain_ends h.bottomUp.targetsFirst (a.callee (some i))
  have hkeys := events_qualifiedName a (some i)
  have henclosing := h.events_enclosingName hn
  refine ⟨⟨_, events_identifier a _⟩, ⟨_, events_shortName a _⟩, ⟨_, events_nodeName hnames _⟩,
    ⟨_, _, hchain, hchain.spells, hkeys, ?_⟩, fun f hf => ?_, fun hnone => ?_, fun e he => ?_⟩
  · rw [hkeys, List.length_map, count_chainNames hnames, ← List.countP_eq_length_filter,
      List.countP_reverse]
  · rcases henclosing with ⟨f', form, hf', hform, hevents⟩ | ⟨hnone, _⟩
    · obtain ⟨rfl, _⟩ := hf'.anonymous.unique hf.anonymous
      exact ⟨form, hform, hevents⟩
    · exact absurd hf (hnone f)
  · rcases henclosing with ⟨f, _, hf, _⟩ | ⟨_, hevents⟩
    · exact absurd hf (hnone f)
    · exact hevents
  · rw [ne_eq, message_eq_walkCut_iff]
    rintro ⟨j, rfl⟩
    simp only [List.mem_append] at he
    rcases he with (((he | he) | he) | he) | he
    · cases (events_identifier a _).eq_of_mem he
    · cases (events_shortName a _).eq_of_mem he
    · cases (events_nodeName hnames _).eq_of_mem he
    · rw [hkeys] at he
      obtain ⟨_, _, ⟨⟩⟩ := List.mem_map.mp he
    · rcases henclosing with ⟨_, _, _, _, hevents⟩ | ⟨_, hevents⟩
      · rw [hevents] at he
        cases List.mem_singleton.mp he
      · rw [hevents] at he
        cases he

end Arena

/-! ## 5. Documents -/

theorem ofJson_noEmptyNames {v : Json} {d : Document} (h : (Document.ofJson v).value = .ok d) :
    d.arena.NoEmptyNames := by
  intro r hname
  obtain ⟨n, hn, hform⟩ := Option.map_eq_some_iff.mp (Arena.identifierName?_eq_some_iff.mp hname)
  obtain ⟨i, _, hi⟩ := Option.bind_eq_some_iff.mp hn
  have hcomplete := ofJson_complete h hi
  rw [hform] at hcomplete
  exact hcomplete rfl

/-- **In a loaded document, events explain the missing names.** For every node, an identifier, a
    last name or a name as an argument that is missing is told by one event; a qualified name by as
    many as it has empty parts, from the outermost key inward; the name of the enclosing function by
    one if there is a function, without a name of its own, that stands somewhere other than in a
    declarator or an assignment. Nothing else is told, and no walk is cut. -/
theorem ofJson_events_explain {v : Json} {d : Document} (h : (Document.ofJson v).value = .ok d)
    {i : Nat} (hi : i < d.arena.size) : d.arena.EventsExplain d.root i := by
  have htree := (ofJson_forest h).isTree
  have hlast := htree.last
  obtain ⟨n, hn⟩ := htree.exists_node? (i := i) (by omega)
  exact htree.eventsExplain (ofJson_noEmptyNames h) hn

/-- The document of `on(function () { return a[0][1] })`. -/
def indexedCallback : Json :=
  .obj [("type", .str "CallExpression"),
    ("callee", .obj [("type", .str "Identifier"), ("name", .str "on")]),
    ("arguments", .arr
      [.obj [("type", .str "FunctionExpression"), ("params", .arr []),
        ("body", .obj [("type", .str "BlockStatement"), ("body", .arr
          [.obj [("type", .str "ReturnStatement"),
            ("argument", .obj [("type", .str "MemberExpression"), ("computed", .bool true),
              ("object", .obj [("type", .str "MemberExpression"), ("computed", .bool true),
                ("object", .obj [("type", .str "Identifier"), ("name", .str "a")]),
                ("property", .obj [("type", .str "Literal"), ("raw", .str "0")])]),
              ("property", .obj [("type", .str "Literal"), ("raw", .str "1")])])]])])]])]

/-- What is loaded from it. -/
def indexedCallbackLoaded : Document where
  arena := ⟨#[{ parent := some 9, form := .identifier "on" },
    { parent := some 3, form := .identifier "a" },
    { parent := some 3, form := .literal "0" },
    { parent := some 5, form := .member (some 1) (some 2) true },
    { parent := some 5, form := .literal "1" },
    { parent := some 6, form := .member (some 3) (some 4) true },
    { parent := some 7, form := .returnStatement (some 5) },
    { parent := some 8, form := .block [some 6] },
    { parent := some 9, form := .function .expression none [] (some 7) },
    { form := .call .call (some 0) [some 8] }]⟩
  root := 9

theorem untargeted_indexedCallback : indexedCallbackLoaded.arena.Untargeted 9 5 8 where
  anonymous := .above rfl rfl (.above rfl rfl (.above rfl rfl (.here rfl)))
  inner := by decide
  elsewhere form hform := by
    cases hform
    exact ⟨nofun, nofun⟩

/-- The access `a[0][1]` names no identifier, its qualified name `a..` has two empty parts, and the
    function around it is named by nothing. -/
theorem indexedCallback_events_explain :
    (Document.ofJson indexedCallback).value = .ok indexedCallbackLoaded ∧
    (indexedCallbackLoaded.arena.identifier (some 5)).value = none ∧
    (indexedCallbackLoaded.arena.identifier (some 5)).events.length = 1 ∧
    (indexedCallbackLoaded.arena.qualifiedName (some 5)).value = "a.." ∧
    (indexedCallbackLoaded.arena.qualifiedName (some 5)).events =
      [.emptySegment (some 4) (some "Literal"), .emptySegment (some 2) (some "Literal")] ∧
    indexedCallbackLoaded.arena.Untargeted 9 5 8 ∧
    (indexedCallbackLoaded.arena.enclosingName (some 5)).events = [.noTarget 8 "CallExpression"] ∧
    indexedCallbackLoaded.arena.EventsExplain 9 5 := by
  have hok : (Document.ofJson indexedCallback).value = .ok indexedCallbackLoaded := by
    decide +kernel
  have hexplain := ofJson_events_explain hok (i := 5) (by decide)
  have hmissing : (indexedCallbackLoaded.arena.identifier (some 5)).value = none := by decide
  obtain ⟨_, hidentifier⟩ := hexplain.identifier
  obtain ⟨form, hform, henclosing⟩ := hexplain.untargeted 8 untargeted_indexedCallback
  cases hform
  refine ⟨hok, hmissing, ?_, by decide, by decide, untargeted_indexedCallback, henclosing, hexplain⟩
  rw [hidentifier.1 hmissing]
  rfl

end CallNames
