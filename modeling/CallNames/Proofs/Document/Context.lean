import CallNames.Proofs.Arena.Add
import CallNames.Proofs.Document.Links
import CallNames.Proofs.Document.Places
import CallNames.Proofs.Document.Refusal

/-!
# What loading leaves as it was

A node is loaded in the middle of a document: some nodes are in the arena already, a path leads to
the value, and it lies inside so many nodes. Whatever becomes of the value, its siblings must find
all this as it was.

* `Arena.Keeps`: every node is still there **with the same parent**. New nodes have new nodes as
  their children only, so that storing them changes no older one (`Keeps.add`);
* `LoadState.Undisturbed` adds the path. `loadNode_undisturbed` says it of a node that is loaded,
  `loadNode_refused_undisturbed` of one that is refused;
* `countNode` loads with a counter of its own, which is raised for each node and lowered behind it,
  where `loadNode` is told how much room is left. **The two load alike** (`countNode_agrees`);
* `countNode_keeps_context`: so path, counter and older nodes are the same after every load.
-/

namespace CallNames

/-! ## 1. Arenas -/

namespace Arena

/-- **All nodes of an arena are still there, their parents included.** -/
def Keeps (a b : Arena) : Prop := ∀ i n, a.node? i = some n → b.node? i = some n

theorem Keeps.refl (a : Arena) : a.Keeps a := fun _ _ h => h

theorem Keeps.trans {a b c : Arena} (hab : a.Keeps b) (hbc : b.Keeps c) : a.Keeps c :=
  fun i n h => hbc i n (hab i n h)

theorem Keeps.size_le {a b : Arena} (h : a.Keeps b) : a.size ≤ b.size := by
  cases hn : a.node? b.size with
  | none => exact node?_eq_none_iff.mp hn
  | some n => exact absurd (lt_size_of_node? (h _ _ hn)) (Nat.lt_irrefl b.size)

/-- The nodes that are still there stand in front, in their order. -/
theorem keeps_iff_prefix {a b : Arena} : a.Keeps b ↔ a.nodes.toList <+: b.nodes.toList := by
  rw [List.prefix_iff_getElem?]
  constructor
  · intro h i hi
    have hn : a.node? i = some a.nodes.toList[i] := by simp [node?]
    have hb := h i _ hn
    simpa [node?] using hb
  · intro h i n hn
    have hi : i < a.nodes.toList.length := lt_size_of_node? hn
    have hb := h i hi
    obtain ⟨_, e⟩ := Array.getElem?_eq_some_iff.mp hn
    rw [Array.getElem_toList, e] at hb
    simpa [node?] using hb

/-- **A node over new nodes changes no older one.** -/
theorem Keeps.add {a b : Arena} {n : Node} (h : a.Keeps b)
    (hnew : ∀ c ∈ n.form.children, a.size ≤ c) : a.Keeps (b.add n).2 := by
  intro i m hm
  have hi := lt_size_of_node? hm
  refine node?_add_old (h i m hm) fun hc => ?_
  have hle := hnew i hc
  omega

end Arena

/-! ## 2. Loading -/

/-- What a node that is loaded leaves: older nodes as they were, and itself as the last node,
    without a parent. -/
structure LastAdded (a : Arena) (i : Nat) (b : Arena) : Prop where
  keeps : a.Keeps b
  new : a.size ≤ i
  last : i + 1 = b.size
  parentless : ∃ n, b.node? i = some n ∧ n.parent = none

/-- What a run of demands leaves: older nodes as they were, and new handles in the slots. -/
structure NewChildren (a : Arena) (rs : List Ref) (b : Arena) : Prop where
  keeps : a.Keeps b
  new : ∀ c, some c ∈ rs → a.size ≤ c ∧ c < b.size

theorem NewChildren.done (a : Arena) : NewChildren a [] a :=
  ⟨.refl a, fun _ h => absurd h List.not_mem_nil⟩

theorem NewChildren.hole {a b : Arena} {rs : List Ref} (h : NewChildren a rs b) :
    NewChildren a (none :: rs) b := by
  refine ⟨h.keeps, fun c hc => ?_⟩
  rcases List.mem_cons.mp hc with e | hc
  · cases e
  · exact h.new c hc

theorem NewChildren.child {a b c : Arena} {i : Nat} {rs : List Ref} (hfirst : LastAdded a i b)
    (h : NewChildren b rs c) : NewChildren a (some i :: rs) c := by
  refine ⟨hfirst.keeps.trans h.keeps, fun j hj => ?_⟩
  have hsize := h.keeps.size_le
  have hold := hfirst.keeps.size_le
  have hlast := hfirst.last
  rcases List.mem_cons.mp hj with e | hj
  · cases e
    exact ⟨hfirst.new, by omega⟩
  · obtain ⟨hle, hlt⟩ := h.new j hj
    exact ⟨by omega, hlt⟩

/-- **The node itself**: its children are new, so that only their parents are set. -/
theorem NewChildren.node {a b : Arena} {src : Source} {rs : List Ref}
    (hmet : List.Forall₂ Demand.Met src.demands rs) (h : NewChildren a rs b) :
    LastAdded a b.size (b.add (src.nodeOf rs)).2 := by
  have hchildren : ∀ c ∈ (src.nodeOf rs).form.children, a.size ≤ c ∧ c < b.size := by
    intro c hc
    have hslots : (src.nodeOf rs).form.children = rs.filterMap id :=
      Form.children_refill (Source.length_of_met hmet)
    rw [hslots] at hc
    obtain ⟨r, hr, e⟩ := List.mem_filterMap.mp hc
    obtain rfl : r = some c := e
    exact h.new c hr
  refine ⟨h.keeps.add fun c hc => (hchildren c hc).1, h.keeps.size_le, (Arena.size_add ..).symm,
    src.nodeOf rs, Arena.node?_add_size fun hc => ?_, rfl⟩
  exact Nat.lt_irrefl _ (hchildren _ hc).2

/-- A node that is loaded is the last one, and nothing else has changed in the arena. -/
theorem loadNode_lastAdded {room : Nat} {v : Json} {s t : LoadState} {i : Nat}
    (h : loadNode room v s = .ok i t) : LastAdded s.arena i t.arena :=
  loadNode_induction (P := fun _ => LastAdded) (Q := fun _ => NewChildren)
    NewChildren.done
    (fun _ _ _ _ h => h.hole)
    (fun _ _ _ _ _ _ _ _ hfirst h => h.child hfirst)
    (fun _ _ _ _ _ _ hmet h => h.node hmet)
    h

namespace LoadState

/-- **The path and all nodes are as they were.** -/
structure Undisturbed (s t : LoadState) : Prop where
  path : t.path = s.path
  keeps : s.arena.Keeps t.arena

theorem Undisturbed.refl (s : LoadState) : s.Undisturbed s := ⟨rfl, .refl _⟩

theorem Undisturbed.trans {s t u : LoadState} (hst : s.Undisturbed t) (htu : t.Undisturbed u) :
    s.Undisturbed u :=
  ⟨htu.path.trans hst.path, hst.keeps.trans htu.keeps⟩

/-- Whoever takes a step steps back. -/
theorem Undisturbed.leave {s t : LoadState} {step : Step} (h : (s.enter step).Undisturbed t) :
    s.Undisturbed t.leave := by
  refine ⟨?_, h.keeps⟩
  rw [path_leave, h.path, path_enter, List.tail_cons]

theorem undisturbed_announced (s : LoadState) (src : Source) : s.Undisturbed (s.announced src) :=
  ⟨path_announced s src, by rw [arena_announced]; exact .refl _⟩

end LoadState

open LoadState (Undisturbed)

theorem loadNode_undisturbed {room : Nat} {v : Json} {s t : LoadState} {i : Nat}
    (h : loadNode room v s = .ok i t) : s.Undisturbed t :=
  ⟨loadNode_path h, (loadNode_lastAdded h).keeps⟩

/-- Nor do demands that are met one after the other disturb anything. -/
theorem Loads.undisturbed {room : Nat} {ds : List Demand} {s t : LoadState} {rs : List Ref}
    (h : Loads (loadNode room) ds s rs t) : s.Undisturbed t := by
  induction h with
  | done s => exact .refl s
  | hole _ ih => exact ih
  | child first _ ih => exact (loadNode_undisturbed first).leave.trans ih

/-- **A refusal disturbs nothing either**: whatever was loaded before it stays, and each step on the
    way to it is taken back. -/
theorem loadNode_refused_undisturbed {room : Nat} {v : Json} {s t : LoadState} {e : DocumentError}
    (h : loadNode room v s = .error e t) : s.Undisturbed t := by
  induction room generalizing v s e t with
  | zero =>
    cases h
    exact .refl s
  | succ k ih =>
    rcases loadNode_eq_error h with ⟨_, _, rfl⟩ | ⟨_, _, _, rfl⟩ | ⟨_, _, _, _, rfl⟩ |
      ⟨_, src, before, d, after, rs, u, ⟨⟩, _, _, hrun, hd⟩
    · exact .refl t
    · exact .refl t
    · exact .refl t
    · have hbefore := (s.undisturbed_announced src).trans hrun.undisturbed
      refine hbefore.trans ?_
      cases d with
      | hole => cases hd
      | defect d =>
        cases hd
        exact .refl _
      | nullEntry step =>
        have hstep : Load.within step (Load.refuse .notANode : Load Ref) u = .error e t := hd
        obtain ⟨_, hrefuse, rfl⟩ := Load.within_eq_error_iff.mp hstep
        cases hrefuse
        exact (Undisturbed.refl (u.enter step)).leave
      | child step w =>
        obtain ⟨_, hw, rfl⟩ := Load.within_eq_error_iff.mp hd
        exact (ih (Load.map_eq_error_iff.mp hw)).leave

/-! ## 3. Loading with a counter -/

/-- Where a loader stands that counts: the state of loading, and inside how many nodes it is. -/
structure Context where
  state : LoadState := {}
  depth : Nat := 0

/-- Loading with a counter. -/
abbrev CountedLoad := EStateM DocumentError Context

namespace CountedLoad

variable {α β : Type}

/-- Does what needs no counter. -/
def lift (x : Load α) : CountedLoad α := fun c =>
  match x c.state with
  | .ok a s => .ok a { c with state := s }
  | .error e s => .error e { c with state := s }

/-- Takes a step and steps back. -/
def within (step : Step) (x : CountedLoad α) : CountedLoad α := fun c =>
  match x { c with state := c.state.enter step } with
  | .ok a d => .ok a { d with state := d.state.leave }
  | .error e d => .error e { d with state := d.state.leave }

/-- **Enters a node and leaves it**: the counter is raised before and lowered behind, whether what
    is done inside succeeds or not. Beyond the limit there is no entrance. -/
def inside (x : CountedLoad α) : CountedLoad α := fun c =>
  if nodeLimit ≤ c.depth then lift (Load.refuse .tooDeep) c
  else
    match x { c with depth := c.depth + 1 } with
    | .ok a d => .ok a { d with depth := d.depth - 1 }
    | .error e d => .error e { d with depth := d.depth - 1 }

end CountedLoad

open CountedLoad

/-- Meets a demand, given how the value that it asks for is loaded. -/
def Demand.count (d : Demand) (load : ∀ w, d.value? = some w → CountedLoad Nat) :
    CountedLoad Ref :=
  match d with
  | .defect d => lift (Load.refuse d)
  | .nullEntry step => within step (lift (Load.refuse .notANode))
  | .hole => pure none
  | .child step w => within step (some <$> load w rfl)

theorem Source.sizeOf_lt_of_value? {src : Source} {d : Demand} {w : Json} (hd : d ∈ src.demands)
    (hw : d.value? = some w) : sizeOf w < sizeOf (Json.obj src.fields) := by
  cases d with
  | child step w =>
    cases hw
    exact (child_of_mem_demands hd rfl).sizeOf_lt
  | _ => cases hw

/-- **Loads one node with all below it**, counting the nodes that it is inside of. -/
def countNode (v : Json) : CountedLoad Nat :=
  inside <|
    match _hv : v.source? with
    | none => lift (Load.refuse (match v with | .obj _ => .missingType | _ => .notANode))
    | some src => do
      lift src.announce
      let slots ← src.demands.attach.mapM fun d => d.1.count fun w _hw => countNode w
      lift (Load.store (src.nodeOf slots))
termination_by sizeOf v
decreasing_by
  rw [(Json.source?_eq_some_iff.mp _hv).1]
  exact Source.sizeOf_lt_of_value? d.2 _hw

/-! ## 4. Counting and room -/

namespace CountedLoad

variable {α β : Type} {depth : Nat}

/-- **At this depth the counter is of no account**: the same is done without it. -/
def Agrees (depth : Nat) (x : CountedLoad α) (y : Load α) : Prop :=
  ∀ c : Context, c.depth = depth → x c = lift y c

theorem lift_eq_ok_iff {x : Load α} {c d : Context} {a : α} :
    lift x c = .ok a d ↔ ∃ s, x c.state = .ok a s ∧ d = { c with state := s } := by
  unfold lift
  cases x c.state <;> simp [eq_comm]

theorem lift_eq_error_iff {x : Load α} {c d : Context} {e : DocumentError} :
    lift x c = .error e d ↔ ∃ s, x c.state = .error e s ∧ d = { c with state := s } := by
  unfold lift
  cases x c.state <;> simp [eq_comm]

theorem agrees_lift (x : Load α) : Agrees depth (lift x) x := fun _ _ => rfl

theorem agrees_pure (a : α) : Agrees depth (pure a) (pure a) := fun _ _ => rfl

theorem Agrees.bind {x : CountedLoad α} {y : Load α} {f : α → CountedLoad β} {g : α → Load β}
    (hx : Agrees depth x y) (hf : ∀ a, Agrees depth (f a) (g a)) :
    Agrees depth (x >>= f) (y >>= g) := by
  intro c hc
  show EStateM.bind x f c = lift (EStateM.bind y g) c
  unfold EStateM.bind
  rw [hx c hc]
  unfold lift
  dsimp only
  cases y c.state with
  | ok a s => exact hf a { c with state := s } hc
  | error e s => rfl

theorem Agrees.map {x : CountedLoad α} {y : Load α} (hx : Agrees depth x y) (f : α → β) :
    Agrees depth (f <$> x) (f <$> y) := by
  rw [map_eq_pure_bind, map_eq_pure_bind]
  exact hx.bind fun a => agrees_pure (f a)

theorem Agrees.within {x : CountedLoad α} {y : Load α} (hx : Agrees depth x y) (step : Step) :
    Agrees depth (within step x) (Load.within step y) := by
  intro c hc
  unfold CountedLoad.within
  rw [hx { c with state := c.state.enter step } hc]
  unfold lift
  dsimp only
  cases hy : y (c.state.enter step) with
  | ok a s => rw [Load.within_of_ok hy]
  | error e s => rw [Load.within_of_error hy]

theorem Agrees.mapM {γ : Type} {f : γ → CountedLoad β} {g : γ → Load β} {xs : List γ}
    (h : ∀ x ∈ xs, Agrees depth (f x) (g x)) : Agrees depth (xs.mapM f) (xs.mapM g) := by
  induction xs with
  | nil => exact agrees_pure []
  | cons x xs ih =>
    rw [List.mapM_cons, List.mapM_cons]
    have hrest := ih fun y hy => h y (List.mem_cons_of_mem x hy)
    exact (h x List.mem_cons_self).bind fun b => hrest.bind fun bs => agrees_pure (b :: bs)

/-- **The counter is lowered as far as it was raised.** -/
theorem Agrees.inside {x : CountedLoad α} {y : Load α} (hx : Agrees (depth + 1) x y)
    (hdepth : depth < nodeLimit) : Agrees depth (inside x) y := by
  intro c hc
  unfold CountedLoad.inside
  rw [if_neg (by omega), hx { c with depth := c.depth + 1 } (by rw [hc])]
  unfold lift
  dsimp only
  cases y c.state <;> rfl

end CountedLoad

theorem Demand.count_agrees {d : Demand} {depth : Nat}
    {load : ∀ w, d.value? = some w → CountedLoad Nat} {load' : Json → Load Nat}
    (h : ∀ w hw, Agrees depth (load w hw) (load' w)) :
    Agrees depth (d.count load) (d.load load') := by
  cases d with
  | defect d => exact agrees_lift (Load.refuse d)
  | nullEntry step => exact (agrees_lift (Load.refuse .notANode)).within step
  | hole => exact agrees_pure none
  | child step w => exact ((h w rfl).map some).within step

/-- **Counting up to the limit is counting the room down**: a node at some depth is loaded as where
    so much less room is left. -/
theorem countNode_agrees (v : Json) (depth : Nat) :
    Agrees depth (countNode v) (loadNode (nodeLimit - depth) v) := by
  induction hk : sizeOf v using Nat.strongRecOn generalizing v depth with
  | ind k ih =>
    rw [countNode]
    by_cases hdepth : nodeLimit ≤ depth
    · intro c hc
      unfold inside
      rw [if_pos (hc ▸ hdepth), Nat.sub_eq_zero_of_le hdepth]
      rfl
    · obtain ⟨room, hroom⟩ : ∃ room, nodeLimit - depth = room + 1 :=
        ⟨nodeLimit - depth - 1, by omega⟩
      rw [hroom]
      refine Agrees.inside ?_ (by omega)
      split
      · rename_i hv
        rcases loadNode_of_no_source room hv with ⟨hobj, e⟩ | ⟨fields, rfl, _, e⟩
        · rw [e]
          cases v with
          | obj fields => exact absurd rfl (hobj fields)
          | _ => exact agrees_lift _
        · rw [e]
          exact agrees_lift _
      · rename_i src hv
        have hslots : src.demands.mapM (Demand.load (loadNode room)) =
            src.demands.attach.mapM fun d => d.1.load (loadNode room) := by
          rw [List.mapM_subtype fun _ _ => rfl, List.unattach_attach]
        rw [loadNode_of_source room hv, Source.readForm_eq, bind_assoc, hslots]
        refine (agrees_lift src.announce).bind fun _ => ?_
        rw [bind_map_left]
        refine (Agrees.mapM fun d _ => Demand.count_agrees fun w hw => ?_).bind fun slots =>
          agrees_lift (Load.store (src.nodeOf slots))
        -- a child lies one node deeper, where one less may follow
        have hlt := Source.sizeOf_lt_of_value? d.2 hw
        rw [← (Json.source?_eq_some_iff.mp hv).1] at hlt
        have hchild := ih (sizeOf w) (by omega) w (depth + 1) rfl
        rwa [show nodeLimit - (depth + 1) = room by omega] at hchild

/-! ## 5. The context of a load -/

/-- **Path, depth and nodes are as they were**; whatever nodes are new stand behind the old ones. -/
structure Context.Keeps (c d : Context) : Prop where
  path : d.state.path = c.state.path
  depth : d.depth = c.depth
  nodes : c.state.arena.nodes.toList <+: d.state.arena.nodes.toList

theorem LoadState.Undisturbed.keeps_context {c : Context} {s : LoadState}
    (h : c.state.Undisturbed s) : c.Keeps { c with state := s } :=
  ⟨h.path, rfl, Arena.keeps_iff_prefix.mp h.keeps⟩

/-- **Loading never disturbs the context in which it is done.** Whatever the arena, the path and the
    depth are, a loader that counts does what is done without a counter where the room up to the
    limit is left; it leaves path, depth and all older nodes as they were, whether the value is
    loaded or refused; and a node that is loaded is the last one, without a parent. -/
theorem countNode_keeps_context (v : Json) (c : Context) :
    countNode v c = lift (loadNode (nodeLimit - c.depth) v) c ∧
    (∀ i d, countNode v c = .ok i d → c.Keeps d ∧ c.state.arena.size ≤ i ∧
      i + 1 = d.state.arena.size ∧ ∃ n, d.state.arena.node? i = some n ∧ n.parent = none) ∧
    ∀ e d, countNode v c = .error e d → c.Keeps d := by
  have hcount := countNode_agrees v c.depth c rfl
  refine ⟨hcount, fun i d h => ?_, fun e d h => ?_⟩
  · rw [hcount] at h
    obtain ⟨s, hload, rfl⟩ := lift_eq_ok_iff.mp h
    have hadded := loadNode_lastAdded hload
    exact ⟨(loadNode_undisturbed hload).keeps_context, hadded.new, hadded.last, hadded.parentless⟩
  · rw [hcount] at h
    obtain ⟨s, hload, rfl⟩ := lift_eq_error_iff.mp h
    exact (loadNode_refused_undisturbed hload).keeps_context

/-- A place in the middle of a document: one node is there that knows its parent, and a path leads
    on. -/
def halfway (depth : Nat) : Context where
  state :=
    { arena := ⟨#[{ parent := some 4, form := .identifier "g" }]⟩
      path := [⟨"expression", none⟩, ⟨"body", some 1⟩] }
  depth := depth

/-- How a load ends: with which defect, if it is refused, and with how many nodes. -/
def ending : EStateM.Result DocumentError LoadState Nat → Option Defect × Nat
  | .ok _ s => (none, s.arena.size)
  | .error e s => (some e.defect, s.arena.size)

/-- In `f([, x], y?.z)` the innermost names lie inside three nodes. Where the limit leaves room for
    them, the call is loaded behind the node that was there; one node deeper it is refused, when `f`
    and the array have been loaded already. -/
theorem elisionCall_keeps_context :
    (∃ d, countNode elisionCall (halfway 1020) = .ok 8 d ∧ (halfway 1020).Keeps d ∧
      d.state.arena.size = 9) ∧
    ∃ e d, countNode elisionCall (halfway 1021) = .error e d ∧ (halfway 1021).Keeps d ∧
      e.defect = .tooDeep ∧ d.state.arena.size = 4 := by
  obtain ⟨hfits, hloaded, _⟩ := countNode_keeps_context elisionCall (halfway 1020)
  obtain ⟨hdeeper, _, hrefused⟩ := countNode_keeps_context elisionCall (halfway 1021)
  rw [show nodeLimit - (halfway 1020).depth = 4 from rfl] at hfits
  rw [show nodeLimit - (halfway 1021).depth = 3 from rfl] at hdeeper
  refine ⟨?_, ?_⟩
  · have hrun : ending (loadNode 4 elisionCall (halfway 1020).state) = (none, 9) := by
      decide +kernel
    cases hload : loadNode 4 elisionCall (halfway 1020).state with
    | ok i s =>
      rw [hload] at hrun
      have hsize : s.arena.size = 9 := (Prod.mk.inj hrun).2
      have h := hfits.trans (lift_eq_ok_iff.mpr ⟨s, hload, rfl⟩)
      obtain ⟨hkeeps, -, hlast, -⟩ := hloaded i _ h
      obtain rfl : i = 8 := Nat.succ.inj (hlast.trans hsize)
      exact ⟨_, h, hkeeps, hsize⟩
    | error e s =>
      rw [hload] at hrun
      cases (Prod.mk.inj hrun).1
  · have hrun : ending (loadNode 3 elisionCall (halfway 1021).state) = (some .tooDeep, 4) := by
      decide +kernel
    cases hload : loadNode 3 elisionCall (halfway 1021).state with
    | ok i s =>
      rw [hload] at hrun
      cases (Prod.mk.inj hrun).1
    | error e s =>
      rw [hload] at hrun
      obtain ⟨hdefect, hsize⟩ := Prod.mk.inj hrun
      have h := hdeeper.trans (lift_eq_error_iff.mpr ⟨s, hload, rfl⟩)
      exact ⟨e, _, h, hrefused e _ h, Option.some.inj hdefect, hsize⟩

end CallNames
