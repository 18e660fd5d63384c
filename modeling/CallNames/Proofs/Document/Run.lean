import CallNames.Proofs.Document.Demands

/-!
# Loading, demand by demand

Loading a node means meeting the demands of its object one after the other and storing the node.

* `Loads` relates the states before and after a run in which all demands are met;
* `loadNode_eq_ok_iff` and `loadNode_eq_error` say **what the loading of a node can come to**;
* `loadNode_induction` is the induction over everything that a successful load does to an arena.
-/

namespace CallNames

/-! ## 1. Runs in which all demands are met -/

/-- **A run in which all demands are met**: the states before and after it, and what the slots
    then hold. -/
inductive Loads (load : Json → Load Nat) :
    List Demand → LoadState → List Ref → LoadState → Prop where
  | done (s : LoadState) : Loads load [] s [] s
  | hole {ds : List Demand} {s t : LoadState} {rs : List Ref} (rest : Loads load ds s rs t) :
      Loads load (.hole :: ds) s (none :: rs) t
  | child {step : Step} {v : Json} {ds : List Demand} {s t u : LoadState} {i : Nat}
      {rs : List Ref} (first : load v (s.enter step) = .ok i t)
      (rest : Loads load ds t.leave rs u) :
      Loads load (.child step v :: ds) s (some i :: rs) u

section Runs

variable {load : Json → Load Nat}

theorem Loads.met {ds : List Demand} {s t : LoadState} {rs : List Ref}
    (h : Loads load ds s rs t) : List.Forall₂ Demand.Met ds rs := by
  induction h with
  | done => exact .nil
  | hole _ ih => exact .cons .hole ih
  | child _ _ ih => exact .cons (.child _ _ _) ih

/-- Meeting one demand succeeds where it is no defect and the child can be loaded. -/
theorem Demand.load_eq_ok_iff {d : Demand} {s t : LoadState} {r : Ref} :
    d.load load s = .ok r t ↔ Loads load [d] s [r] t := by
  cases d with
  | defect d => exact ⟨fun h => (by cases h), fun h => (by cases h)⟩
  | nullEntry step => exact ⟨fun h => (by cases h), fun h => (by cases h)⟩
  | hole =>
    constructor
    · intro h
      cases h
      exact .hole (.done _)
    · intro h
      cases h with
      | hole rest =>
        cases rest
        rfl
  | child step v =>
    show Load.within step (some <$> load v) s = .ok r t ↔ _
    rw [Load.within_eq_ok_iff]
    constructor
    · intro h
      obtain ⟨u, h, rfl⟩ := h
      obtain ⟨i, hi, rfl⟩ := Load.map_eq_ok_iff.mp h
      exact .child hi (.done _)
    · intro h
      cases h with
      | child first rest =>
        cases rest
        exact ⟨_, Load.map_eq_ok_iff.mpr ⟨_, first, rfl⟩, rfl⟩

/-- A run can be cut behind its first demand. -/
theorem loads_cons_iff {d : Demand} {ds : List Demand} {s u : LoadState} {r : Ref}
    {rs : List Ref} :
    Loads load (d :: ds) s (r :: rs) u ↔ ∃ t, Loads load [d] s [r] t ∧ Loads load ds t rs u := by
  constructor
  · intro h
    cases h with
    | hole rest => exact ⟨_, .hole (.done _), rest⟩
    | child first rest => exact ⟨_, .child first (.done _), rest⟩
  · intro h
    obtain ⟨t, h, rest⟩ := h
    cases h with
    | hole h =>
      cases h
      exact .hole rest
    | child first h =>
      cases h
      exact .child first rest

/-- **The loader gets through a list of demands exactly along a run of them.** -/
theorem mapM_load_eq_ok_iff {ds : List Demand} {s t : LoadState} {rs : List Ref} :
    ds.mapM (Demand.load load) s = .ok rs t ↔ Loads load ds s rs t := by
  induction ds generalizing s rs with
  | nil =>
    constructor
    · intro h
      cases h
      exact .done _
    · intro h
      cases h
      rfl
  | cons d ds ih =>
    rw [List.mapM_cons, Load.bind_eq_ok_iff]
    constructor
    · intro h
      obtain ⟨r, u, hd, h⟩ := h
      obtain ⟨rs', u', hds, ⟨⟩⟩ := Load.bind_eq_ok_iff.mp h
      exact loads_cons_iff.mpr ⟨u, Demand.load_eq_ok_iff.mp hd, ih.mp hds⟩
    · intro h
      cases rs with
      | nil => cases h
      | cons r rs =>
        obtain ⟨u, hd, hds⟩ := loads_cons_iff.mp h
        exact ⟨r, u, Demand.load_eq_ok_iff.mpr hd,
          Load.bind_eq_ok_iff.mpr ⟨rs, t, ih.mpr hds, rfl⟩⟩

/-- **The loader fails at one demand, with all demands before it met.** -/
theorem mapM_load_eq_error {ds : List Demand} {s t : LoadState} {e : DocumentError}
    (h : ds.mapM (Demand.load load) s = .error e t) :
    ∃ before d after rs u, ds = before ++ d :: after ∧ Loads load before s rs u ∧
      d.load load u = .error e t := by
  induction ds generalizing s with
  | nil => cases h
  | cons d ds ih =>
    rw [List.mapM_cons] at h
    rcases Load.bind_eq_error_iff.mp h with hd | ⟨r, u, hd, h⟩
    · exact ⟨[], d, ds, [], s, rfl, .done s, hd⟩
    · rcases Load.bind_eq_error_iff.mp h with hds | ⟨rs, u', _, ⟨⟩⟩
      obtain ⟨before, d', after, rs, u', rfl, hrun, hd'⟩ := ih hds
      exact ⟨d :: before, d', after, r :: rs, u', rfl,
        loads_cons_iff.mpr ⟨u, Demand.load_eq_ok_iff.mp hd, hrun⟩, hd'⟩

end Runs

/-! ## 2. Nodes -/

namespace Source

/-- The node that an object becomes, given what its slots hold. -/
def nodeOf (src : Source) (rs : List Ref) : Node :=
  { span := src.span, form := src.outline.refill rs }

end Source

/-- The node of an object with a type name is read, then stored. -/
theorem loadNode_of_source {v : Json} {src : Source} (room : Nat) (h : v.source? = some src) :
    loadNode (room + 1) v =
      (src.readForm (loadNode room) >>= fun form =>
        Load.store { span := src.span, form := form }) := by
  obtain ⟨rfl, htype⟩ := Json.source?_eq_some_iff.mp h
  rw [loadNode, htype]

/-- Any other value is refused at once. -/
theorem loadNode_of_no_source {v : Json} (room : Nat) (h : v.source? = none) :
    ((∀ fields, v ≠ .obj fields) ∧ loadNode (room + 1) v = Load.refuse .notANode) ∨
    (∃ fields, v = .obj fields ∧ (∀ name, fields.lookup "type" ≠ some (.str name)) ∧
      loadNode (room + 1) v = Load.refuse .missingType) := by
  cases v with
  | obj fields =>
    have htype : ∀ name, fields.lookup "type" ≠ some (.str name) := by
      intro name hname
      have hsrc : (Json.obj fields).source? = some ⟨name, fields⟩ :=
        Json.source?_eq_some_iff.mpr ⟨rfl, hname⟩
      rw [h] at hsrc
      cases hsrc
    refine .inr ⟨fields, rfl, htype, ?_⟩
    rw [loadNode]
    split
    · rename_i name hname
      exact absurd hname (htype name)
    · rfl
  | _ => exact .inl ⟨fun _ hv => (by cases hv), rfl⟩

/-- **A node is loaded exactly where room is left, the value is an object with a type name, and
    all its demands are met.** -/
theorem loadNode_eq_ok_iff {room : Nat} {v : Json} {s t : LoadState} {i : Nat} :
    loadNode room v s = .ok i t ↔
      ∃ k src rs u, room = k + 1 ∧ v.source? = some src ∧
        Loads (loadNode k) src.demands (s.announced src) rs u ∧
        i = u.arena.size ∧ t = u.stored (src.nodeOf rs) := by
  constructor
  · intro h
    cases room with
    | zero => cases h
    | succ k =>
      cases hv : v.source? with
      | none =>
        rcases loadNode_of_no_source k hv with ⟨_, e⟩ | ⟨_, _, _, e⟩
        · rw [e] at h
          cases h
        · rw [e] at h
          cases h
      | some src =>
        rw [loadNode_of_source k hv, Source.readForm_eq] at h
        obtain ⟨form, u, hread, hstore⟩ := Load.bind_eq_ok_iff.mp h
        obtain ⟨_, s', hann, hform⟩ := Load.bind_eq_ok_iff.mp hread
        rw [Source.announce_run] at hann
        cases hann
        obtain ⟨rs, hrun, rfl⟩ := Load.map_eq_ok_iff.mp hform
        cases hstore
        exact ⟨k, src, rs, u, rfl, rfl, mapM_load_eq_ok_iff.mp hrun, rfl, rfl⟩
  · intro h
    obtain ⟨k, src, rs, u, rfl, hv, hrun, rfl, rfl⟩ := h
    rw [loadNode_of_source k hv, Source.readForm_eq]
    refine Load.bind_eq_ok_iff.mpr ⟨src.outline.refill rs, u, ?_, rfl⟩
    refine Load.bind_eq_ok_iff.mpr ⟨(), _, src.announce_run s, ?_⟩
    exact Load.map_eq_ok_iff.mpr ⟨rs, mapM_load_eq_ok_iff.mpr hrun, rfl⟩

/-- **What a refusal can come from**: no room, a value that is no object with a type name, or one
    of the demands of the object. -/
theorem loadNode_eq_error {room : Nat} {v : Json} {s t : LoadState} {e : DocumentError}
    (h : loadNode room v s = .error e t) :
    (room = 0 ∧ e = ⟨s.path.reverse, .tooDeep⟩ ∧ t = s) ∨
    (v.source? = none ∧ (∀ fields, v ≠ .obj fields) ∧ e = ⟨s.path.reverse, .notANode⟩ ∧ t = s) ∨
    (∃ fields, v = .obj fields ∧ (∀ name, fields.lookup "type" ≠ some (.str name)) ∧
      e = ⟨s.path.reverse, .missingType⟩ ∧ t = s) ∨
    (∃ k src before d after rs u, room = k + 1 ∧ v.source? = some src ∧
      src.demands = before ++ d :: after ∧ Loads (loadNode k) before (s.announced src) rs u ∧
      d.load (loadNode k) u = .error e t) := by
  cases room with
  | zero =>
    cases h
    exact .inl ⟨rfl, rfl, rfl⟩
  | succ k =>
    cases hv : v.source? with
    | none =>
      rcases loadNode_of_no_source k hv with ⟨hobj, eq⟩ | ⟨fields, hobj, htype, eq⟩
      · rw [eq] at h
        cases h
        exact .inr (.inl ⟨rfl, hobj, rfl, rfl⟩)
      · rw [eq] at h
        cases h
        exact .inr (.inr (.inl ⟨fields, hobj, htype, rfl, rfl⟩))
    | some src =>
      rw [loadNode_of_source k hv, Source.readForm_eq] at h
      rcases Load.bind_eq_error_iff.mp h with hread | ⟨_, _, _, ⟨⟩⟩
      rcases Load.bind_eq_error_iff.mp hread with hann | ⟨_, s', hann, hform⟩
      · rw [Source.announce_run] at hann
        cases hann
      · rw [Source.announce_run] at hann
        cases hann
        obtain ⟨before, d, after, rs, u, hds, hrun, hd⟩ :=
          mapM_load_eq_error (Load.map_eq_error_iff.mp hform)
        exact .inr (.inr (.inr ⟨k, src, before, d, after, rs, u, rfl, rfl, hds, hrun, hd⟩))

section Induction

variable {P : Json → Arena → Nat → Arena → Prop}
  {Q : List Demand → Arena → List Ref → Arena → Prop}

/-- What holds of every child of a run holds of the run. -/
theorem Loads.arena_induction {load : Json → Load Nat}
    (done : ∀ a, Q [] a [] a)
    (hole : ∀ ds a rs b, Q ds a rs b → Q (.hole :: ds) a (none :: rs) b)
    (child : ∀ step v ds a b c i rs, P v a i b → Q ds b rs c →
      Q (.child step v :: ds) a (some i :: rs) c)
    (hload : ∀ v s i t, load v s = .ok i t → P v s.arena i t.arena)
    {ds : List Demand} {s t : LoadState} {rs : List Ref} (h : Loads load ds s rs t) :
    Q ds s.arena rs t.arena := by
  induction h with
  | done s => exact done s.arena
  | hole _ ih => exact hole _ _ _ _ ih
  | child first _ ih =>
    have hfirst := hload _ _ _ _ first
    exact child _ _ _ _ _ _ _ _ hfirst ih

/-- **The induction over a successful load**, as far as arenas go: `P` is shown of a node from
    `Q` of the run of its demands. -/
theorem loadNode_induction
    (done : ∀ a, Q [] a [] a)
    (hole : ∀ ds a rs b, Q ds a rs b → Q (.hole :: ds) a (none :: rs) b)
    (child : ∀ step v ds a b c i rs, P v a i b → Q ds b rs c →
      Q (.child step v :: ds) a (some i :: rs) c)
    (node : ∀ v src a rs b, v.source? = some src → List.Forall₂ Demand.Met src.demands rs →
      Q src.demands a rs b → P v a b.size (b.add (src.nodeOf rs)).2)
    {room : Nat} {v : Json} {s t : LoadState} {i : Nat} (h : loadNode room v s = .ok i t) :
    P v s.arena i t.arena := by
  -- the room runs out along the children, the run along their order
  induction room generalizing v s i t with
  | zero => cases h
  | succ k ih =>
    obtain ⟨_, src, rs, u, ⟨⟩, hv, hrun, rfl, rfl⟩ := loadNode_eq_ok_iff.mp h
    have hQ := hrun.arena_induction done hole child fun _ _ _ _ h => ih h
    rw [LoadState.arena_announced] at hQ
    exact node v src s.arena rs u.arena hv hrun.met hQ

end Induction

/-! ## 3. Documents -/

namespace Document

theorem ofJson_eq_ok_iff {v : Json} {d : Document} :
    (ofJson v).value = .ok d ↔
      ∃ t, loadNode nodeLimit v {} = .ok d.root t ∧ d.arena = t.arena := by
  unfold ofJson
  cases h : loadNode nodeLimit v {} with
  | ok root t =>
    constructor
    · intro hd
      cases hd
      exact ⟨t, rfl, rfl⟩
    · intro h
      obtain ⟨t', ht, ha⟩ := h
      cases ht
      obtain ⟨arena, root⟩ := d
      cases ha
      rfl
  | error e t =>
    constructor
    · intro hd
      cases hd
    · intro h
      obtain ⟨_, ⟨⟩, _⟩ := h

theorem ofJson_eq_error_iff {v : Json} {e : DocumentError} :
    (ofJson v).value = .error e ↔ ∃ t, loadNode nodeLimit v {} = .error e t := by
  unfold ofJson
  cases h : loadNode nodeLimit v {} with
  | ok root t =>
    constructor
    · intro hd
      cases hd
    · intro h
      obtain ⟨_, ⟨⟩⟩ := h
  | error e' t =>
    constructor
    · intro hd
      cases hd
      exact ⟨t, rfl⟩
    · intro h
      obtain ⟨_, ⟨⟩⟩ := h
      rfl

end Document

end CallNames
