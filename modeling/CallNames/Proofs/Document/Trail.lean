import CallNames.Proofs.Document.Places
import CallNames.Proofs.Document.Refusal
import CallNames.Proofs.Document.Walks

/-!
# The way through a document

An unmodelled node is announced when its object is entered, and it is stored when all demands of the
object have been met. So **events come in the order in which objects are entered, handles in the
order in which they are left**, and a refusal cuts both short.

* `Json.trail` lists what lies on the way through a document, whether it can be loaded or not: the
  nodes to enter, and in between the reasons to refuse it;
* `loadNode_passes`: a node that is loaded has nothing but nodes on its way, and **the events tell
  the unmodelled ones among its places**;
* `loadNode_refusedAt`: where loading fails, it has come to the first refusal on the way, and the
  events tell the unmodelled nodes before it;
* `enters_iff`: the nodes on the way before the first refusal are **those that loading enters**;
* `ofJson_events_mirror`: the events of a whole document, against the nodes of its arena.
-/

namespace CallNames

/-! ## 1. Trails -/

/-- What lies on the way through a document: a node to enter, or a reason to refuse the document. -/
inductive Stop where
  | enter (place : Path × Json)
  | refuse (e : DocumentError)

/-- A stop as it is seen from one node further out. -/
def Stop.behind (step : Step) : Stop → Stop
  | .enter place => .enter (step :: place.1, place.2)
  | .refuse e => .refuse ⟨step :: e.path, e.defect⟩

namespace Demand

/-- The stops on the way to meeting a demand, given those on the way through a child. -/
def stops (trail : Json → List Stop) : Demand → List Stop
  | .defect d => [.refuse ⟨[], d⟩]
  | .nullEntry step => [.refuse ⟨[step], .notANode⟩]
  | .hole => []
  | .child step w => (trail w).map (Stop.behind step)

/-- The places that a demand leads to. -/
def places : Demand → List (Path × Json)
  | .child step w => w.places.map fun place => (step :: place.1, place.2)
  | _ => []

end Demand

namespace Json

/-- What a value without a type name is refused for. -/
def lack : Json → Defect
  | .obj _ => .missingType
  | _ => .notANode

/-- **What lies on the way through a document**, where `room` more nodes may be nested in each
    other. The way goes on behind a refusal, although loading does not. -/
def trail : (room : Nat) → Json → List Stop
  | 0, _ => [.refuse ⟨[], .tooDeep⟩]
  | room + 1, v =>
    match v.source? with
    | none => [.refuse ⟨[], v.lack⟩]
    | some src => .enter ([], v) :: src.demands.flatMap (Demand.stops (trail room))

theorem trail_of_source {v : Json} {src : Source} (room : Nat) (h : v.source? = some src) :
    v.trail (room + 1) = .enter ([], v) :: src.demands.flatMap (Demand.stops (trail room)) := by
  rw [trail, h]

/-- The places of a node, demand by demand. -/
theorem places_of_demands {v : Json} {src : Source} (h : v.source? = some src) :
    v.places = ([], v) :: src.demands.flatMap Demand.places := by
  rw [places_of_source h, Source.childPlaces]
  congr 1
  induction src.demands with
  | nil => rfl
  | cons d ds ih =>
    rw [List.flatMap_cons, ← ih]
    cases d <;> rfl

end Json

/-! ## 2. The first refusal -/

/-- **The first refusal on a way**: it comes right behind the nodes that are entered, and these are
    the first of the places. -/
structure EndsAt (stops : List Stop) (places entered : List (Path × Json)) (e : DocumentError) :
    Prop where
  refused : ∃ rest, stops = entered.map .enter ++ .refuse e :: rest
  inOrder : entered <+: places

namespace EndsAt

variable {stops : List Stop} {places entered : List (Path × Json)} {e : DocumentError}

/-- A refusal that is all there is. -/
theorem at_once (e : DocumentError) (places : List (Path × Json)) :
    EndsAt [.refuse e] places [] e :=
  ⟨⟨[], rfl⟩, List.nil_prefix⟩

/-- The first refusal behind a step. -/
theorem behind (step : Step) (h : EndsAt stops places entered e) :
    EndsAt (stops.map (Stop.behind step))
      (places.map fun place => (step :: place.1, place.2))
      (entered.map fun place => (step :: place.1, place.2)) ⟨step :: e.path, e.defect⟩ := by
  obtain ⟨⟨rest, rfl⟩, hfirst⟩ := h
  refine ⟨⟨rest.map (Stop.behind step), ?_⟩, hfirst.map _⟩
  rw [List.map_append, List.map_cons, List.map_map, List.map_map]
  rfl

/-- The first refusal behind nodes that are all entered. -/
theorem append (before : List (Path × Json)) (afterStops : List Stop)
    (afterPlaces : List (Path × Json)) (h : EndsAt stops places entered e) :
    EndsAt (before.map .enter ++ (stops ++ afterStops)) (before ++ (places ++ afterPlaces))
      (before ++ entered) e := by
  obtain ⟨⟨rest, rfl⟩, hfirst⟩ := h
  refine ⟨⟨rest ++ afterStops, ?_⟩, ?_⟩
  · rw [List.map_append, List.append_assoc, List.append_assoc, List.cons_append]
  · exact (List.prefix_append_right_inj before).mpr
      (hfirst.trans (List.prefix_append places afterPlaces))

end EndsAt

/-! ## 3. Announcements -/

/-- The type name of an object that has no model. -/
def Json.unmodelled? (v : Json) : Option String :=
  v.source?.bind fun src => if src.kind = .other then some src.typeName else none

/-- What is told when a node is entered that lies behind a path. -/
def announcement? (outer : Path) (place : Path × Json) : Option Event :=
  place.2.unmodelled?.map fun typeName => .keptUnmodelled typeName (outer ++ place.1)

/-- A step can be taken as part of the path behind it. -/
theorem filterMap_announcement? (outer : Path) (step : Step) (places : List (Path × Json)) :
    places.filterMap (announcement? (outer ++ [step])) =
      (places.map fun place => (step :: place.1, place.2)).filterMap (announcement? outer) := by
  rw [List.filterMap_map]
  congr 1
  funext place
  simp only [announcement?, Function.comp_apply, List.append_assoc, List.singleton_append]

namespace LoadState

/-- **What is told on the way from one state to another.** -/
def Tells (s t : LoadState) (entered : List (Path × Json)) : Prop :=
  t.events.toList = s.events.toList ++ entered.filterMap (announcement? s.path.reverse)

variable {s t u : LoadState} {entered more : List (Path × Json)}

theorem Tells.refl (s : LoadState) : s.Tells s [] := (List.append_nil _).symm

theorem Tells.trans (h : s.Tells t entered) (ht : t.Tells u more) (hpath : t.path = s.path) :
    s.Tells u (entered ++ more) := by
  unfold Tells at *
  rw [ht, h, hpath, List.filterMap_append, List.append_assoc]

/-- What is told behind a step, told from before it. -/
theorem Tells.behind {step : Step} (h : (s.enter step).Tells t entered) :
    s.Tells t.leave (entered.map fun place => (step :: place.1, place.2)) := by
  unfold Tells at *
  rw [path_enter, List.reverse_cons, filterMap_announcement?] at h
  exact h

/-- The announcement of an object tells of itself. -/
theorem tells_announced (s : LoadState) {v : Json} {src : Source} (hv : v.source? = some src) :
    s.Tells (s.announced src) [([], v)] := by
  unfold Tells announced
  rw [List.filterMap_cons, List.filterMap_nil, announcement?, Json.unmodelled?, hv, List.append_nil,
    Option.bind_some]
  cases hk : src.kind with
  | other => simp
  | _ => simp

end LoadState

/-! ## 4. Loading along the way -/

/-- **A way without a refusal**: there are only nodes on it, and they are told. -/
structure Passes (stops : List Stop) (places : List (Path × Json)) (s t : LoadState) : Prop where
  nodes : stops = places.map .enter
  told : s.Tells t places

/-- Demands that are met have nothing but nodes on their way. -/
theorem Loads.passes {k : Nat}
    (hload : ∀ v s i t, loadNode k v s = .ok i t → Passes (v.trail k) v.places s t)
    {ds : List Demand} {s t : LoadState} {rs : List Ref} (h : Loads (loadNode k) ds s rs t) :
    Passes (ds.flatMap (Demand.stops (Json.trail k))) (ds.flatMap Demand.places) s t := by
  induction h with
  | done s => exact ⟨rfl, .refl s⟩
  | hole _ ih => exact ih
  | @child step v ds s t u i rs first _ ih =>
    obtain ⟨hnodes, htold⟩ := hload _ _ _ _ first
    have hpath : t.leave.path = s.path := by
      rw [LoadState.path_leave, loadNode_path first, LoadState.path_enter, List.tail_cons]
    refine ⟨?_, htold.behind.trans ih.told hpath⟩
    rw [List.flatMap_cons, List.flatMap_cons, List.map_append, ih.nodes, Demand.stops, hnodes,
      Demand.places, List.map_map, List.map_map]
    rfl

/-- **A node that is loaded has nothing but nodes on its way, and its places are told.** -/
theorem loadNode_passes {room : Nat} {v : Json} {s t : LoadState} {i : Nat}
    (h : loadNode room v s = .ok i t) : Passes (v.trail room) v.places s t := by
  induction room generalizing v s i t with
  | zero => cases h
  | succ k ih =>
    obtain ⟨_, src, rs, u, ⟨⟩, hv, hrun, _, rfl⟩ := loadNode_eq_ok_iff.mp h
    obtain ⟨hnodes, htold⟩ := hrun.passes fun _ _ _ _ h => ih h
    rw [Json.trail_of_source k hv, Json.places_of_demands hv]
    refine ⟨by rw [hnodes, List.map_cons], ?_⟩
    exact (s.tells_announced hv).trans htold (LoadState.path_announced s src)

/-- **A refusal that loading comes to**: the first one on the way, with all nodes before it told. -/
def RefusedAt (stops : List Stop) (places : List (Path × Json)) (s t : LoadState)
    (e : DocumentError) : Prop :=
  ∃ entered p, EndsAt stops places entered ⟨p, e.defect⟩ ∧ e.path = s.path.reverse ++ p ∧
    s.Tells t entered

/-- A demand that cannot be met is refused at the first refusal on its way. -/
theorem Demand.refusedAt {k : Nat}
    (hload : ∀ v s e t, loadNode k v s = .error e t → RefusedAt (v.trail k) v.places s t e)
    {d : Demand} {s t : LoadState} {e : DocumentError} (h : d.load (loadNode k) s = .error e t) :
    RefusedAt (d.stops (Json.trail k)) d.places s t e := by
  cases d with
  | hole => cases h
  | defect d =>
    cases h
    exact ⟨[], [], .at_once _ _, (List.append_nil _).symm, .refl s⟩
  | nullEntry step =>
    have hstep : Load.within step (Load.refuse .notANode : Load Ref) s = .error e t := h
    obtain ⟨u, hrefuse, rfl⟩ := Load.within_eq_error_iff.mp hstep
    cases hrefuse
    refine ⟨[], [step], .at_once _ _, ?_, .refl s⟩
    rw [LoadState.path_enter, List.reverse_cons]
  | child step w =>
    obtain ⟨u, hw, rfl⟩ := Load.within_eq_error_iff.mp h
    obtain ⟨entered, p, hends, hp, htold⟩ := hload _ _ _ _ (Load.map_eq_error_iff.mp hw)
    refine ⟨_, step :: p, hends.behind step, ?_, htold.behind⟩
    rw [hp, LoadState.path_enter, List.reverse_cons, List.append_assoc, List.singleton_append]

/-- A value is refused for what it lacks, or at one of its demands. -/
theorem loadNode_succ_eq_error {k : Nat} {v : Json} {s t : LoadState} {e : DocumentError}
    (h : loadNode (k + 1) v s = .error e t) :
    (v.source? = none ∧ e = ⟨s.path.reverse, v.lack⟩ ∧ t = s) ∨
    ∃ src before d after rs u, v.source? = some src ∧ src.demands = before ++ d :: after ∧
      Loads (loadNode k) before (s.announced src) rs u ∧ d.load (loadNode k) u = .error e t := by
  rcases loadNode_eq_error h with ⟨hroom, _⟩ | ⟨hv, hobj, rfl, rfl⟩ |
    ⟨fields, rfl, htype, rfl, rfl⟩ | ⟨_, src, before, d, after, rs, u, ⟨⟩, hv, hds, hrun, hd⟩
  · cases hroom
  · have hlack : v.lack = .notANode := by
      cases v with
      | obj fields => exact absurd rfl (hobj fields)
      | _ => rfl
    exact .inl ⟨hv, by rw [hlack], rfl⟩
  · cases hv : (Json.obj fields).source? with
    | none => exact .inl ⟨rfl, rfl, rfl⟩
    | some src =>
      obtain ⟨⟨⟩, hname⟩ := Json.source?_eq_some_iff.mp hv
      exact absurd hname (htype src.typeName)
  · exact .inr ⟨src, before, d, after, rs, u, hv, hds, hrun, hd⟩

/-- **Where loading fails, it has come to the first refusal on the way**, and it has told the nodes
    before it. -/
theorem loadNode_refusedAt {room : Nat} {v : Json} {s t : LoadState} {e : DocumentError}
    (h : loadNode room v s = .error e t) : RefusedAt (v.trail room) v.places s t e := by
  induction room generalizing v s e t with
  | zero =>
    cases h
    exact ⟨[], [], .at_once _ _, (List.append_nil _).symm, .refl s⟩
  | succ k ih =>
    rcases loadNode_succ_eq_error h with ⟨hv, rfl, rfl⟩ |
      ⟨src, before, d, after, rs, u, hv, hds, hrun, hd⟩
    · refine ⟨[], [], ?_, (List.append_nil _).symm, .refl t⟩
      rw [Json.trail, hv]
      exact .at_once _ _
    · -- the demands before the refused one are met: whatever lies on their way is passed
      obtain ⟨hnodes, htold⟩ := hrun.passes fun _ _ _ _ h => loadNode_passes h
      obtain ⟨entered, p, hends, hp, hmore⟩ := Demand.refusedAt (fun _ _ _ _ h => ih h) hd
      have hpath : u.path = s.path := by
        rw [hrun.path fun _ _ _ _ h => loadNode_path h, LoadState.path_announced]
      refine ⟨([], v) :: before.flatMap Demand.places ++ entered, p, ?_, hpath ▸ hp, ?_⟩
      · rw [Json.trail_of_source k hv, Json.places_of_demands hv, hds, List.flatMap_append,
          List.flatMap_append, List.flatMap_cons, List.flatMap_cons, hnodes]
        exact hends.append (([], v) :: before.flatMap Demand.places) _ _
      · have hnode := (s.tells_announced hv).trans htold (LoadState.path_announced s src)
        exact LoadState.Tells.trans hnode hmore hpath

/-! ## 5. What loading enters -/

/-- **Loading enters an object**: at the start, or inside a child once the demands before the child
    have been met. -/
inductive Enters : (room : Nat) → Json → LoadState → Path → Json → Prop where
  | here {room : Nat} {v : Json} {src : Source} (s : LoadState) (hv : v.source? = some src) :
      Enters (room + 1) v s [] v
  | child {room : Nat} {v w x : Json} {src : Source} {before after : List Demand} {step : Step}
      {s u : LoadState} {rs : List Ref} {p : Path} (hv : v.source? = some src)
      (hds : src.demands = before ++ .child step w :: after)
      (hrun : Loads (loadNode room) before (s.announced src) rs u)
      (hw : Enters room w (u.enter step) p x) : Enters (room + 1) v s (step :: p) x

namespace Stop

/-- The nodes on a way before the first refusal. -/
def passed : List Stop → List (Path × Json)
  | .enter place :: rest => place :: passed rest
  | _ => []

theorem passed_append (places : List (Path × Json)) (rest : List Stop) :
    passed (places.map .enter ++ rest) = places ++ passed rest := by
  induction places with
  | nil => rfl
  | cons place places ih => exact congrArg (place :: ·) ih

theorem passed_behind (step : Step) (stops : List Stop) :
    passed (stops.map (behind step)) =
      (passed stops).map fun place => (step :: place.1, place.2) := by
  induction stops with
  | nil => rfl
  | cons stop stops ih =>
    cases stop with
    | enter place => exact congrArg ((step :: place.1, place.2) :: ·) ih
    | refuse e => rfl

/-- A node is passed on the first part of a way, or behind it if there is no refusal on it. -/
theorem mem_passed_append {xs ys : List Stop} {place : Path × Json} :
    place ∈ passed (xs ++ ys) ↔
      place ∈ passed xs ∨ (∀ e, .refuse e ∉ xs) ∧ place ∈ passed ys := by
  induction xs with
  | nil => simp [passed]
  | cons stop xs ih =>
    cases stop with
    | enter place' => simp [passed, ih, or_assoc]
    | refuse e =>
      constructor
      · intro h
        cases h
      · intro h
        rcases h with h | ⟨hclear, _⟩
        · cases h
        · exact absurd List.mem_cons_self (hclear e)

end Stop

theorem EndsAt.passed_eq {stops : List Stop} {places entered : List (Path × Json)}
    {e : DocumentError} (h : EndsAt stops places entered e) : Stop.passed stops = entered := by
  obtain ⟨⟨rest, rfl⟩, _⟩ := h
  rw [Stop.passed_append]
  exact List.append_nil entered

/-- A value without a refusal on its way is loaded, in any state. -/
theorem exists_loadNode_of_no_refusal {room : Nat} {v : Json} (h : ∀ e, .refuse e ∉ v.trail room)
    (s : LoadState) : ∃ i t, loadNode room v s = .ok i t := by
  cases hload : loadNode room v s with
  | ok i t => exact ⟨i, t, rfl⟩
  | error e t =>
    obtain ⟨entered, p, ⟨⟨rest, hrest⟩, _⟩, _⟩ := loadNode_refusedAt hload
    refine absurd ?_ (h ⟨p, e.defect⟩)
    rw [hrest]
    exact List.mem_append_right _ List.mem_cons_self

/-- What is passed on the way through demands lies behind one that is met by loading a child, with
    the demands before it met. -/
theorem exists_child_of_mem_passed {k : Nat} {ds : List Demand} {q : Path} {x : Json}
    (h : (q, x) ∈ Stop.passed (ds.flatMap (Demand.stops (Json.trail k)))) (s : LoadState) :
    ∃ before step w after rs u p, ds = before ++ .child step w :: after ∧
      Loads (loadNode k) before s rs u ∧ q = step :: p ∧ (p, x) ∈ Stop.passed (w.trail k) := by
  induction ds generalizing s with
  | nil => cases h
  | cons d ds ih =>
    cases d with
    | defect d => cases h
    | nullEntry step => cases h
    | hole =>
      obtain ⟨before, step, w, after, rs, u, p, rfl, hrun, hq, hp⟩ := ih h s
      exact ⟨.hole :: before, step, w, after, none :: rs, u, p, rfl, .hole hrun, hq, hp⟩
    | child step w =>
      rw [List.flatMap_cons, Stop.mem_passed_append, Demand.stops, Stop.passed_behind] at h
      rcases h with hfirst | ⟨hclear, hrest⟩
      · obtain ⟨⟨p, _⟩, hp, ⟨⟩⟩ := List.mem_map.mp hfirst
        exact ⟨[], step, w, ds, [], s, p, rfl, .done s, rfl, hp⟩
      · have hw : ∀ e, .refuse e ∉ w.trail k :=
          fun e he => hclear _ (List.mem_map_of_mem he)
        obtain ⟨i, t, hload⟩ := exists_loadNode_of_no_refusal hw (s.enter step)
        obtain ⟨before, step', w', after, rs, u, p, rfl, hrun, hq, hp⟩ := ih hrest t.leave
        exact ⟨.child step w :: before, step', w', after, some i :: rs, u, p, rfl,
          .child hload hrun, hq, hp⟩

/-- **Loading enters the nodes on the way before the first refusal, and no others.** -/
theorem enters_iff {room : Nat} {v x : Json} {s : LoadState} {q : Path} :
    Enters room v s q x ↔ (q, x) ∈ Stop.passed (v.trail room) := by
  constructor
  · intro h
    induction h with
    | here s hv =>
      rw [Json.trail_of_source _ hv]
      exact List.mem_cons_self
    | @child room v w x src before after step s u rs p hv hds hrun _ ih =>
      obtain ⟨hnodes, _⟩ := hrun.passes fun _ _ _ _ h => loadNode_passes h
      rw [Json.trail_of_source _ hv, hds, List.flatMap_append, List.flatMap_cons, hnodes]
      refine List.mem_cons_of_mem _ ?_
      rw [Stop.passed_append]
      refine List.mem_append_right _ (Stop.mem_passed_append.mpr (.inl ?_))
      rw [Demand.stops, Stop.passed_behind]
      exact List.mem_map.mpr ⟨(p, x), ih, rfl⟩
  · intro h
    induction room generalizing v s q with
    | zero => cases h
    | succ k ih =>
      cases hv : v.source? with
      | none =>
        rw [Json.trail, hv] at h
        cases h
      | some src =>
        rw [Json.trail_of_source k hv] at h
        rcases List.mem_cons.mp h with e | hbelow
        · cases e
          exact .here s hv
        · obtain ⟨before, step, w, after, rs, u, p, hds, hrun, rfl, hp⟩ :=
            exists_child_of_mem_passed hbelow (s.announced src)
          exact .child hv hds hrun (ih hp)

/-! ## 6. Documents -/

namespace Arena

variable {a : Arena}

/-- The type name of a node that has no model. -/
def unmodelled? (a : Arena) (i : Nat) : Option String :=
  (a.form? (some i)).bind fun form => if form.kind = .other then some form.typeName else none

/-- A node has no model exactly if its object has none. -/
theorem Holds.unmodelled? {v : Json} {i : Nat} (h : a.Holds v i) :
    v.unmodelled? = a.unmodelled? i := by
  obtain ⟨src, n, hsrc, hn, _, hshape, _⟩ := h.exists_node
  rw [Json.unmodelled?, hsrc, Arena.unmodelled?, form?_of_node? hn, hshape, Option.bind_some,
    Option.bind_some, Form.kind_refill, Form.typeName_refill, Source.kind_outline,
    Source.typeName_outline]

end Arena

/-- The report of an unmodelled node. -/
def keptReport (p : Path) (typeName : String) : Json :=
  .obj [("level", .str "TRACE"), ("target", .str "jsnames_ast::estree"), ("fields", .obj
    [("message", .str "keeping unmodelled node as Other"), ("node_type", .str typeName),
     ("path", .str (Segment.write p.segments))])]

/-- The report of a loaded document. -/
def loadedReport (nodes root : Nat) : Json :=
  .obj [("level", .str "DEBUG"), ("target", .str "jsnames_ast::estree"), ("fields", .obj
    [("message", .str "loaded ESTree document"), ("nodes", .ofNat nodes),
     ("root", .str (Ref.display (some root)))])]

/-- What is told of places, as it is reported. -/
theorem toJson_announcements (places : List (Path × Json)) :
    (places.filterMap (announcement? [])).map Event.toJson =
      places.filterMap fun place => place.2.unmodelled?.map (keptReport place.1) := by
  rw [List.map_filterMap]
  congr 1
  funext place
  rw [announcement?, Option.map_map]
  congr 1
  funext typeName
  rw [keptReport, Path.write_segments]
  rfl

/-- A list in step with another one can be read along it. -/
theorem filterMap_eq_zip {α β γ : Type} {f : α → Option γ} {g : α × β → Option γ} {xs : List α}
    {ys : List β} (h : List.Forall₂ (fun x y => f x = g (x, y)) xs ys) :
    xs.filterMap f = (xs.zip ys).filterMap g := by
  induction h with
  | nil => rfl
  | cons hxy _ ih => rw [List.zip_cons_cons, List.filterMap_cons, List.filterMap_cons, hxy, ih]

/-- A loaded document tells its places and then its own end. -/
theorem ofJson_events_of_ok {v : Json} {d : Document} (h : (Document.ofJson v).value = .ok d) :
    (Document.ofJson v).events =
      v.places.filterMap (announcement? []) ++ [.loaded d.arena.size d.root] := by
  obtain ⟨t, ht, ha⟩ := Document.ofJson_eq_ok_iff.mp h
  have htold : t.events.toList = v.places.filterMap (announcement? []) := (loadNode_passes ht).told
  rw [ha, ← htold, Document.ofJson, ht]

/-- A refused document tells the nodes before the first refusal on its way. -/
theorem ofJson_events_of_error {v : Json} {e : DocumentError}
    (h : (Document.ofJson v).value = .error e) :
    ∃ entered, EndsAt (v.trail nodeLimit) v.places entered e ∧
      (Document.ofJson v).events = entered.filterMap (announcement? []) := by
  obtain ⟨t, ht⟩ := Document.ofJson_eq_error_iff.mp h
  obtain ⟨entered, p, hends, hp, htold⟩ := loadNode_refusedAt ht
  obtain rfl : e.path = p := hp
  have hevents : t.events.toList = entered.filterMap (announcement? []) := htold
  refine ⟨entered, hends, ?_⟩
  rw [← hevents, Document.ofJson, ht]

/-- All that is told of places is of the lowest level. -/
theorem level_announcement {outer : Path} {place : Path × Json} {event : Event}
    (h : announcement? outer place = some event) : event.level = .trace := by
  obtain ⟨typeName, _, rfl⟩ := Option.map_eq_some_iff.mp h
  rfl

/-- **The events of a document mirror its tree.** If it is loaded, the unmodelled nodes of the
    arena are reported, each once and with its type name and the path to its object, in the order of
    the downward walk and not in that of the handles; the end is one report of the whole. If it is
    refused, the reports are those of the unmodelled nodes that lie on the way before the refusal,
    in the order of the way, which are those that loading has entered, and there is no other. -/
theorem ofJson_events_mirror (v : Json) :
    (∀ d, (Document.ofJson v).value = .ok d →
      List.Forall₂ (fun place i => v.Reaches place.1 place.2 ∧ v.Leads place.1.segments place.2 ∧
        d.arena.Holds place.2 i) v.places (d.arena.preorder (some d.root)) ∧
      (d.arena.preorder (some d.root)).Perm (List.range d.arena.size) ∧
      d.arena.childrenFirst d.root = List.range d.arena.size ∧
      (Document.ofJson v).events.map Event.toJson =
        ((v.places.zip (d.arena.preorder (some d.root))).filterMap fun entry =>
          (d.arena.unmodelled? entry.2).map (keptReport entry.1.1)) ++
          [loadedReport d.arena.size d.root]) ∧
    ∀ e, (Document.ofJson v).value = .error e →
      ∃ entered rest, v.trail nodeLimit = entered.map .enter ++ .refuse e :: rest ∧
        entered <+: v.places ∧
        (∀ p w, (p, w) ∈ entered ↔ Enters nodeLimit v {} p w) ∧
        (Document.ofJson v).events.map Event.toJson =
          (entered.filterMap fun place => place.2.unmodelled?.map (keptReport place.1)) ∧
        ∀ event ∈ (Document.ofJson v).events, event.level = .trace := by
  refine ⟨fun d h => ?_, fun e h => ?_⟩
  · have hplaces := ofJson_forall₂_places h
    have hpostorder := ofJson_childrenFirst h
    have hunmodelled : (v.places.filterMap fun place =>
        place.2.unmodelled?.map (keptReport place.1)) =
        (v.places.zip (d.arena.preorder (some d.root))).filterMap fun entry =>
          (d.arena.unmodelled? entry.2).map (keptReport entry.1.1) :=
      filterMap_eq_zip (hplaces.imp fun place i hplace => by rw [hplace.2.1.unmodelled?])
    refine ⟨hplaces.imp fun place i hplace => ⟨hplace.1, hplace.1.leads, hplace.2.1⟩, ?_,
      hpostorder, ?_⟩
    · rw [Arena.preorder_eq_parentsFirst (ofJson_forest h).isTree.bottomUp, ← hpostorder]
      exact d.arena.parentsFirst_perm_childrenFirst d.root
    · rw [ofJson_events_of_ok h, List.map_append, toJson_announcements, hunmodelled]
      rfl
  · obtain ⟨entered, hends, hevents⟩ := ofJson_events_of_error h
    obtain ⟨rest, hrest⟩ := hends.refused
    refine ⟨entered, rest, hrest, hends.inOrder, fun p w => ?_, ?_, fun event he => ?_⟩
    · rw [enters_iff, hends.passed_eq]
    · rw [hevents, toJson_announcements]
    · rw [hevents] at he
      obtain ⟨_, _, hevent⟩ := List.mem_filterMap.mp he
      exact level_announcement hevent

/-- The document of `if (x) throw e; ...y`, with a name for what is thrown. -/
def guardedThrow (name : String) : Json :=
  .obj [("type", .str "Program"), ("body", .arr
    [.obj [("type", .str "IfStatement"),
      ("test", .obj [("type", .str "Identifier"), ("name", .str "x")]),
      ("consequent", .obj [("type", .str "ThrowStatement"),
        ("argument", .obj [("type", .str "Identifier"), ("name", .str name)])])],
     .obj [("type", .str "SpreadElement"),
      ("argument", .obj [("type", .str "Identifier"), ("name", .str "y")])]])]

/-- What it is loaded as. -/
def guardedThrowLoaded : Document where
  arena := ⟨#[
    { parent := some 3, form := .identifier "x" },
    { parent := some 2, form := .identifier "e" },
    { parent := some 3, form := .other "ThrowStatement" [some 1] },
    { parent := some 6, form := .other "IfStatement" [some 0, some 2] },
    { parent := some 5, form := .identifier "y" },
    { parent := some 6, form := .other "SpreadElement" [some 4] },
    { form := .program [some 3, some 5] }]⟩
  root := 6

/-- Why it is refused if what is thrown has no name. -/
def guardedThrowRefused : DocumentError where
  path := [⟨"body", some 0⟩, ⟨"consequent", none⟩, ⟨"argument", none⟩]
  defect := .emptyIdentifier

/-- The outer one of two unmodelled nodes has the greater handle and is reported first, and a
    refusal inside both comes behind their reports. -/
theorem guardedThrow_events_mirror :
    ((Document.ofJson (guardedThrow "e")).value = .ok guardedThrowLoaded ∧
      guardedThrowLoaded.arena.preorder (some 6) = [6, 3, 0, 2, 1, 5, 4] ∧
      (Document.ofJson (guardedThrow "e")).events =
        [.keptUnmodelled "IfStatement" [⟨"body", some 0⟩],
         .keptUnmodelled "ThrowStatement" [⟨"body", some 0⟩, ⟨"consequent", none⟩],
         .keptUnmodelled "SpreadElement" [⟨"body", some 1⟩], .loaded 7 6] ∧
      (Document.ofJson (guardedThrow "e")).events.map Event.toJson =
        (((guardedThrow "e").places.zip (guardedThrowLoaded.arena.preorder (some 6))).filterMap
          fun entry => (guardedThrowLoaded.arena.unmodelled? entry.2).map (keptReport entry.1.1)) ++
          [loadedReport 7 6]) ∧
    (Document.ofJson (guardedThrow "")).value = .error guardedThrowRefused ∧
      (Document.ofJson (guardedThrow "")).events =
        [.keptUnmodelled "IfStatement" [⟨"body", some 0⟩],
         .keptUnmodelled "ThrowStatement" [⟨"body", some 0⟩, ⟨"consequent", none⟩]] ∧
      ∃ entered rest, (guardedThrow "").trail nodeLimit =
          entered.map .enter ++ .refuse guardedThrowRefused :: rest ∧
        entered <+: (guardedThrow "").places ∧
        (Document.ofJson (guardedThrow "")).events.map Event.toJson =
          entered.filterMap fun place => place.2.unmodelled?.map (keptReport place.1) := by
  have hok : (Document.ofJson (guardedThrow "e")).value = .ok guardedThrowLoaded := by
    decide +kernel
  have herror : (Document.ofJson (guardedThrow "")).value = .error guardedThrowRefused := by
    decide +kernel
  obtain ⟨_, _, _, hreports⟩ := (ofJson_events_mirror (guardedThrow "e")).1 _ hok
  obtain ⟨entered, rest, hrest, hpassed, _, hevents, _⟩ :=
    (ofJson_events_mirror (guardedThrow "")).2 _ herror
  exact ⟨⟨hok, by decide +kernel, by decide +kernel, hreports⟩, herror, by decide +kernel,
    entered, rest, hrest, hpassed, hevents⟩

end CallNames
