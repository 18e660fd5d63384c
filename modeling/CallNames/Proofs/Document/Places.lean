import CallNames.Proofs.Arena.Descent
import CallNames.Proofs.Document.Origin
import CallNames.Proofs.Document.Place

/-!
# The places of nodes

Every node of a loaded document was read in one place of the document.

* `Source.childPlaces` lists the children of an object with the steps to them, and `Json.places` all
  nodes of a document with their paths, each before those below it;
* `mem_places_iff`: **the places are those that paths from node to node reach**;
* `ValidAt.of_reaches`: every step goes one level down, so that no path is longer than the levels
  that there are;
* `ofJson_forall₂_places`: the downward walk passes the nodes in the order of their places, and
  **the way up from a node is as long as the way down to its place**.
-/

namespace CallNames

/-! ## 1. Children with their steps -/

/-- The child that a demand asks to load, and the step to it. -/
def Demand.child? : Demand → Option (Step × Json)
  | .child step v => some (step, v)
  | _ => none

theorem Demand.child?_eq_some_iff {d : Demand} {step : Step} {w : Json} :
    d.child? = some (step, w) ↔ d = .child step w := by
  cases d <;> simp [child?]

namespace Source

variable {src : Source} {step : Step} {w : Json}

/-- **The children of an object, each with the step to it**, in the order of loading. -/
def childPlaces (src : Source) : List (Step × Json) := src.demands.filterMap Demand.child?

theorem mem_childPlaces : (step, w) ∈ src.childPlaces ↔ .child step w ∈ src.demands := by
  unfold childPlaces
  rw [List.mem_filterMap]
  constructor
  · intro h
    obtain ⟨d, hd, e⟩ := h
    exact Demand.child?_eq_some_iff.mp e ▸ hd
  · intro h
    exact ⟨_, h, rfl⟩

/-- The children are those that the outline holds, in the same order. -/
theorem map_childPlaces {p : Json → Prop} (h : ∀ d ∈ src.demands, d.Admits p) :
    src.childPlaces.map Prod.snd = src.outline.children := by
  have hvalue : (fun d : Demand => d.child?.map Prod.snd) = Demand.value? := by
    funext d
    cases d <;> rfl
  rw [childPlaces, List.map_filterMap, hvalue, Form.children, ← value_demands h,
    List.filterMap_map, Function.id_comp]

theorem Child.sizeOf_lt (h : src.Child step w) : sizeOf w < sizeOf (Json.obj src.fields) := by
  have hfields : sizeOf w < sizeOf src.fields := by
    cases h with
    | single _ _ hw _ => exact sizeOf_lt_of_mem_fields (mem_fields_of_field? hw)
    | entry _ _ hitems hw _ =>
      exact sizeOf_lt_of_mem_items (mem_fields_of_field? hitems) (List.mem_of_getElem? hw)
    | site _ hw _ => exact sizeOf_lt_of_mem_fields hw
    | siteEntry _ hitems hw _ => exact sizeOf_lt_of_mem_items hitems (List.mem_of_getElem? hw)
  rw [Json.obj.sizeOf_spec]
  omega

theorem child_of_mem_childPlaces (h : (step, w) ∈ src.childPlaces) : src.Child step w :=
  child_of_mem_demands (mem_childPlaces.mp h) rfl

/-- What the slots of a field without a defect demand is demanded of the object. -/
theorem mem_demands_of_slot {field : String × Rule} {d : Demand} {p : Json → Prop}
    (h : ∀ d ∈ src.demands, d.Admits p) (hfield : field ∈ src.kind.schema)
    (hd : d ∈ field.2.slotDemands field.1 (src.field? field.1)) : d ∈ src.demands := by
  have hkind : src.kind ≠ .other := by
    intro hk
    rw [hk] at hfield
    exact absurd hfield List.not_mem_nil
  rw [demands_of_modelled hkind] at h ⊢
  have hdemands : src.fieldDemands field = field.2.slotDemands field.1 (src.field? field.1) := by
    have hnone := (admits_fieldDemands_iff.mp fun d hd =>
      h d (List.mem_flatMap.mpr ⟨field, hfield, hd⟩)).1
    rw [fieldDemands, hnone]
  exact List.mem_flatMap.mpr ⟨field, hfield, hdemands ▸ hd⟩

/-- **An object whose demands can be met asks to load whatever is in the place of a child.** -/
theorem Child.mem_childPlaces {p : Json → Prop} (h : src.Child step w)
    (hadmits : ∀ d ∈ src.demands, d.Admits p) : (step, w) ∈ src.childPlaces := by
  rw [Source.mem_childPlaces]
  cases h with
  | @single key rule w hkey hrule hw hnull =>
    refine mem_demands_of_slot hadmits hkey ?_
    show Demand.child ⟨key, none⟩ w ∈ rule.slotDemands key (src.field? key)
    rw [hw]
    rcases hrule with rfl | rfl
    · exact List.mem_singleton_self _
    · cases w with
      | null => exact absurd rfl hnull
      | _ => exact List.mem_singleton_self _
  | @entry key rule items i w hkey hrule hitems hw hhole =>
    -- the entry makes some demand, and it is met, so that it is no `null`
    obtain ⟨holes, hslots, hholes⟩ : ∃ holes,
        rule.slotDemands key (src.field? key) = Demand.ofEntries holes key items ∧
        (holes = true → rule = .children true) := by
      rw [hitems]
      rcases hrule with ⟨holes, rfl⟩ | rfl
      · exact ⟨holes, rfl, fun h => by rw [h]⟩
      · exact ⟨false, rfl, fun h => nomatch h⟩
    have hmem : Demand.ofEntry holes ⟨key, some i⟩ w ∈ src.demands := by
      refine mem_demands_of_slot hadmits hkey ?_
      rw [hslots]
      exact List.mem_map.mpr ⟨(w, i), List.mem_zipIdx_iff_getElem?.mpr hw, rfl⟩
    rcases Demand.ofEntry_cases holes ⟨key, some i⟩ w with ⟨hnull, htrue, _⟩ | ⟨_, _, e⟩ | ⟨_, e⟩
    · exact absurd (hholes htrue) (hhole hnull)
    · rw [e] at hmem
      exact (hadmits _ hmem).elim
    · exact e ▸ hmem
  | @site key w hkind hw hnode =>
    rw [demands_of_other hkind]
    refine List.mem_map.mpr ⟨(⟨key, none⟩, w), List.mem_flatMap.mpr ⟨(key, w), hw, ?_⟩, rfl⟩
    exact mem_childSites_iff.mpr ⟨hnode, .inl ⟨rfl, rfl⟩⟩
  | @siteEntry key items i w hkind hitems hw hnode =>
    rw [demands_of_other hkind]
    refine List.mem_map.mpr ⟨(⟨key, some i⟩, w),
      List.mem_flatMap.mpr ⟨(key, .arr items), hitems, ?_⟩, rfl⟩
    exact mem_childSites_iff.mpr ⟨hnode, .inr ⟨items, i, rfl, hw, rfl⟩⟩

end Source

/-! ## 2. Places -/

namespace Json

/-- **The nodes of a document with their paths**, each before those below it. -/
def places (v : Json) : List (Path × Json) :=
  match _h : v.source? with
  | none => [([], v)]
  | some src => ([], v) :: src.childPlaces.attach.flatMap fun c =>
      c.1.2.places.map fun place => (c.1.1 :: place.1, place.2)
termination_by sizeOf v
decreasing_by
  rw [(source?_eq_some_iff.mp _h).1]
  exact (Source.child_of_mem_childPlaces c.2).sizeOf_lt

theorem places_of_source {v : Json} {src : Source} (h : v.source? = some src) :
    v.places = ([], v) :: src.childPlaces.flatMap fun c =>
      c.2.places.map fun place => (c.1 :: place.1, place.2) := by
  rw [places]
  split
  · rename_i hnone
    rw [h] at hnone
    cases hnone
  · rename_i src' hsome
    rw [h] at hsome
    cases hsome
    rw [List.flatMap_subtype (g := fun c : Step × Json =>
      c.2.places.map fun place => (c.1 :: place.1, place.2)) (fun _ _ => rfl),
      List.unattach_attach]

/-- A path from node to node that is followed by another one. -/
theorem Reaches.trans {v w u : Json} {p q : Path} (h : v.Reaches p w) (hq : w.Reaches q u) :
    v.Reaches (p ++ q) u := by
  induction h with
  | here v => exact hq
  | child hv hw _ ih => exact .child hv hw (ih hq)

/-- Every place is reached by its path. -/
theorem reaches_of_mem_places {v w : Json} {p : Path} (h : (p, w) ∈ v.places) : v.Reaches p w := by
  induction hk : sizeOf v using Nat.strongRecOn generalizing v p with
  | ind k ih =>
    cases hv : v.source? with
    | none =>
      rw [places, hv] at h
      cases List.mem_singleton.mp h
      exact .here _
    | some src =>
      rw [places_of_source hv] at h
      rcases List.mem_cons.mp h with e | hbelow
      · cases e
        exact .here _
      · obtain ⟨⟨step, c⟩, hc, hplace⟩ := List.mem_flatMap.mp hbelow
        obtain ⟨⟨q, u⟩, hu, ⟨⟩⟩ := List.mem_map.mp hplace
        have hchild := Source.child_of_mem_childPlaces hc
        have hlt := hchild.sizeOf_lt
        rw [← (source?_eq_some_iff.mp hv).1] at hlt
        exact .child hv hchild (ih (sizeOf c) (by omega) hu rfl)

end Json

/-! ## 3. Levels -/

/-- What is in the place of a child of a valid node is a node of the next level. -/
theorem ValidAt.of_child {level : Nat} {v w : Json} {src : Source} {step : Step}
    (h : ValidAt level v) (hv : v.source? = some src) (hw : src.Child step w) :
    ValidAt (level + 1) w := by
  have hadmits := (admits_demands_iff_conforms hv).mpr (validAt_iff.mp h).2
  exact hadmits _ (Source.mem_childPlaces.mp (hw.mem_childPlaces hadmits))

/-- **Every step of a path goes one level down.** -/
theorem ValidAt.of_reaches {level : Nat} {v w : Json} {p : Path} (h : ValidAt level v)
    (hp : v.Reaches p w) : ValidAt (level + p.length) w := by
  induction hp generalizing level with
  | here v => exact h
  | child hv hw _ ih =>
    have hbelow := ih (h.of_child hv hw)
    rw [List.length_cons, Nat.add_comm _ 1, ← Nat.add_assoc]
    exact hbelow

/-- A path to a node of a valid document has fewer steps than there are levels. -/
theorem ValidAt.length_lt {v w : Json} {p : Path} (h : ValidAt 1 v) (hp : v.Reaches p w) :
    p.length < nodeLimit := by
  have hlevel := (validAt_iff.mp (h.of_reaches hp)).1
  omega

/-- **The places of a valid document are those that paths reach.** -/
theorem ValidAt.mem_places_iff {level : Nat} {v w : Json} {p : Path} (h : ValidAt level v) :
    (p, w) ∈ v.places ↔ v.Reaches p w := by
  refine ⟨Json.reaches_of_mem_places, fun hp => ?_⟩
  induction hp generalizing level with
  | here v =>
    cases hv : v.source? with
    | none =>
      rw [Json.places, hv]
      exact List.mem_singleton_self _
    | some src =>
      rw [Json.places_of_source hv]
      exact List.mem_cons_self
  | @child v w u src step p hv hw _ ih =>
    have hadmits := (admits_demands_iff_conforms hv).mpr (validAt_iff.mp h).2
    have hu := ih (h.of_child hv hw)
    rw [Json.places_of_source hv]
    refine List.mem_cons_of_mem _ (List.mem_flatMap.mpr ⟨(step, w), hw.mem_childPlaces hadmits, ?_⟩)
    exact List.mem_map.mpr ⟨(p, u), hu, rfl⟩

/-! ## 4. Places and handles -/

namespace Arena

variable {a : Arena} {root : Nat}

/-- **The walk passes the nodes in the order of their places**, and the way up from each is as long
    as the way up from the start and the path to its place together. -/
theorem Holds.forall₂_places (htree : a.IsTree root) {v : Json} {i level : Nat} {l : List Nat}
    (h : a.Holds v i) (hvalid : ValidAt level v) (hl : a.Climbs (some i) l) :
    List.Forall₂ (fun place j => v.Reaches place.1 place.2 ∧ a.Holds place.2 j ∧
      ∃ up, a.Climbs (some j) up ∧ up.length = l.length + place.1.length)
      v.places (a.parentsFirst i) := by
  induction i using Nat.strongRecOn generalizing v level l with
  | ind i ih =>
    obtain ⟨src, n, hsrc, hn, _, _, hslots⟩ := h.exists_node
    have hadmits := (admits_demands_iff_conforms hsrc).mpr (validAt_iff.mp hvalid).2
    have hchildren : List.Forall₂ (fun c j => a.Holds c.2 j) src.childPlaces n.form.children := by
      rw [← List.forall₂_map_left_iff, Source.map_childPlaces hadmits]
      exact forall₂_filterMap_id hslots
    have hbelow : ∀ c ∈ n.form.children, c < i ∧ a.Climbs (some c) (c :: l) := by
      intro c hc
      obtain ⟨m, hm, hparent⟩ := htree.parent_of_child hn hc
      exact ⟨htree.bottomUp i n c hn hc (lt_size_of_node? hm), .node hm (hparent ▸ hl)⟩
    have hchild : ∀ c ∈ src.childPlaces, src.Child c.1 c.2 :=
      fun c hc => Source.child_of_mem_childPlaces hc
    rw [Json.places_of_source hsrc, parentsFirst_of_bottomUp htree.bottomUp hn]
    refine .cons ⟨.here v, h, l, hl, rfl⟩ ?_
    generalize src.childPlaces = cs at hchildren hchild
    generalize n.form.children = js at hchildren hbelow
    induction hchildren with
    | nil => exact .nil
    | @cons c j cs js hc _ ihs =>
      obtain ⟨hlt, hup⟩ := hbelow j List.mem_cons_self
      have hstep := hchild c List.mem_cons_self
      have hfirst := ih j hlt hc (hvalid.of_child hsrc hstep) hup
      have hrest := ihs (fun c' hc' => hchild c' (List.mem_cons_of_mem c hc'))
        fun j' hj' => hbelow j' (List.mem_cons_of_mem j hj')
      rw [List.flatMap_cons, List.flatMap_cons]
      refine List.rel_append (List.forall₂_map_left_iff.mpr (hfirst.imp ?_)) hrest
      rintro place j' ⟨hreaches, hholds, up, hclimbs, hlength⟩
      refine ⟨.child hsrc hstep hreaches, hholds, up, hclimbs, ?_⟩
      rw [hlength, List.length_cons, List.length_cons]
      omega

end Arena

/-- **The nodes of a loaded document come from its places, in document order**, and on the way up
    from each there is one node for each step of its path, besides the root. -/
theorem ofJson_forall₂_places {v : Json} {d : Document} (h : (Document.ofJson v).value = .ok d) :
    List.Forall₂ (fun place i => v.Reaches place.1 place.2 ∧ d.arena.Holds place.2 i ∧
      (d.arena.ancestors (some i)).value.length = place.1.length + 1)
      v.places (d.arena.preorder (some d.root)) := by
  have htree := (ofJson_forest h).isTree
  obtain ⟨n, hn, hparent⟩ := htree.top
  have hroot : d.arena.Climbs (some d.root) [d.root] := .node hn (.stop (by rw [hparent]; rfl))
  have hplaces := (ofJson_holds h).forall₂_places htree (ofJson_validAt h) hroot
  rw [Arena.preorder_eq_parentsFirst htree.bottomUp]
  refine hplaces.imp ?_
  rintro place i ⟨hreaches, hholds, up, hup, hlength⟩
  obtain ⟨_, m, _, hm, _⟩ := hholds.exists_node
  refine ⟨hreaches, hholds, ?_⟩
  rw [htree.value_ancestors hm hup, hlength, List.length_singleton, Nat.add_comm]

end CallNames
