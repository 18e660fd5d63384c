import CallNames.Largest
import CallNames.Proofs.Document.Places
import CallNames.Proofs.Document.Text

/-!
# The two limits agree

Nodes may be nested 1024 deep, and the containers of a text 2056 deep. Three depths are compared:
the nodes above a node, the steps of its path, and the containers around its object.

* `Path.level`: the level of the object in a place. A child stands one level below its parent, or
  two if it stands in an array, so **a node with `k` nodes on its way up comes from an object of
  level at most `2 * k - 1`**;
* `Json.OwnChain`: containers inside the object of a node that belong to no other node, such as
  lists of children, literal values and fields that are not read;
* `ofJson_limits_agree`: as long as no node has a chain of more than 9 such containers, **the limit
  on text never refuses a document that the limit on nodes admits**.
-/

namespace CallNames

/-! ## 1. Levels -/

/-- **The level of the object in a place**: the document has level 1, and every segment leads into
    another container. -/
def Path.level (p : Path) : Nat := p.segments.length + 1

theorem Step.length_segments (s : Step) : 0 < s.segments.length ∧ s.segments.length ≤ 2 := by
  obtain ⟨field, index⟩ := s
  cases index with
  | none => exact ⟨Nat.zero_lt_one, Nat.le_succ 1⟩
  | some i => exact ⟨Nat.zero_lt_two, Nat.le_refl 2⟩

theorem Path.length_segments (p : Path) :
    p.length ≤ p.segments.length ∧ p.segments.length ≤ 2 * p.length := by
  induction p with
  | nil => exact ⟨Nat.le_refl 0, Nat.le_refl 0⟩
  | cons s p ih =>
    have hstep := s.length_segments
    rw [segments_cons, List.length_append, List.length_cons]
    omega

theorem Path.segments_append (p q : Path) : Path.segments (p ++ q) = p.segments ++ q.segments :=
  List.flatMap_append

/-! ## 2. Nesting -/

namespace Json

/-- Arrays and objects. -/
def isContainer : Json → Bool
  | .arr _ | .obj _ => true
  | _ => false

theorem nesting_pos_iff {v : Json} : 0 < v.nesting ↔ v.isContainer = true := by
  cases v <;> simp [nesting, isContainer]

/-- A container behind some segments is nested at least that deep. -/
theorem Leads.length_lt_nesting {v u : Json} {segs : List Segment} (h : v.Leads segs u)
    (hu : u.isContainer = true) : segs.length < v.nesting := by
  induction h with
  | here v => exact nesting_pos_iff.mpr hu
  | @field key fields w u rest hw _ ih =>
    have hle : w.nesting ≤ _ := le_foldr_max (f := fun f : String × Json => f.2.nesting) hw
    have hrest := ih hu
    rw [nesting, nestingFields_eq_foldr, List.length_cons]
    omega
  | @index i items w u rest hw _ ih =>
    have hle := le_foldr_max (f := nesting) (List.mem_of_getElem? hw)
    have hrest := ih hu
    rw [nesting, nestingItems_eq_foldr, List.length_cons]
    omega

/-- **Some container is nested as deep as the value is said to nest.** -/
theorem exists_leads_nesting {v : Json} (h : v.isContainer = true) :
    ∃ segs u, v.Leads segs u ∧ u.isContainer = true ∧ v.nesting = segs.length + 1 := by
  induction v using Json.induction with
  | null | bool | num | str => cases h
  | arr items ih =>
    rw [nesting, nestingItems_eq_foldr]
    by_cases hpos : 0 < items.foldr (fun v m => max v.nesting m) 0
    · have hne : items ≠ [] := by
        rintro rfl
        cases hpos
      obtain ⟨w, hw, hmax⟩ := exists_foldr_max (f := nesting) hne
      obtain ⟨i, hi⟩ := List.mem_iff_getElem?.mp hw
      obtain ⟨segs, u, hu, hcontainer, hdepth⟩ := ih w hw (nesting_pos_iff.mp (hmax ▸ hpos))
      refine ⟨.index i :: segs, u, .index hi hu, hcontainer, ?_⟩
      rw [← hmax, hdepth, List.length_cons]
      omega
    · exact ⟨[], .arr items, .here _, rfl, by rw [List.length_nil]; omega⟩
  | obj fields ih =>
    rw [nesting, nestingFields_eq_foldr]
    by_cases hpos : 0 < fields.foldr (fun f m => max f.2.nesting m) 0
    · have hne : fields ≠ [] := by
        rintro rfl
        cases hpos
      obtain ⟨⟨key, w⟩, hw, hmax⟩ := exists_foldr_max (f := fun f => f.2.nesting) hne
      obtain ⟨segs, u, hu, hcontainer, hdepth⟩ := ih (key, w) hw (nesting_pos_iff.mp (hmax ▸ hpos))
      refine ⟨.field key :: segs, u, .field hw hu, hcontainer, ?_⟩
      rw [← hmax, hdepth, List.length_cons]
      omega
    · exact ⟨[], .obj fields, .here _, rfl, by rw [List.length_nil]; omega⟩

/-! ## 3. Chains of containers -/

/-- **A chain of containers inside a node that enters no other node**: the segments lead to a
    container, and from no node on the way do they lead there. -/
def OwnChain (w : Json) (segs : List Segment) : Prop :=
  ∃ u, w.Leads segs u ∧ u.isContainer = true ∧
    ∀ (q : Path) (x : Json) (rest : List Segment), q ≠ [] → w.Reaches q x →
      segs = q.segments ++ rest → ¬ x.Leads rest u

end Json

/-- **How deep a container of a document lies**: up to the last node on the way, two levels for each
    step, and from there on a chain that is the node's own. -/
theorem ValidAt.depth_le {v : Json} (h : ValidAt 1 v) {slack : Nat}
    (hslack : ∀ p w segs, v.Reaches p w → w.OwnChain segs → segs.length ≤ slack) {p : Path}
    {w u : Json} {segs : List Segment} (hp : v.Reaches p w) (hsegs : w.Leads segs u)
    (hu : u.isContainer = true) :
    p.segments.length + segs.length ≤ 2 * (nodeLimit - 1) + slack := by
  induction hk : segs.length using Nat.strongRecOn generalizing p w segs with
  | ind k ih =>
    by_cases henters : ∃ (q : Path) (x : Json) (rest : List Segment), q ≠ [] ∧ w.Reaches q x ∧
        segs = q.segments ++ rest ∧ x.Leads rest u
    · obtain ⟨q, x, rest, hne, hq, rfl, hrest⟩ := henters
      have hsteps := q.length_segments.1
      have hpos := List.length_pos_iff.mpr hne
      rw [List.length_append] at hk
      have hdeep := ih rest.length (by omega) (hp.trans hq) hrest rfl
      rw [Path.segments_append, List.length_append] at hdeep
      omega
    · have hown : w.OwnChain segs :=
        ⟨u, hsegs, hu, fun q x rest hne hq e hrest => henters ⟨q, x, rest, hne, hq, e, hrest⟩⟩
      have hshort := hslack p w segs hp hown
      have hsteps := p.length_segments.2
      have hlevels := h.length_lt hp
      omega

/-- A valid document nests at most two containers for each level, and the longest chain of a
    node. -/
theorem ValidAt.nesting_le {v : Json} (h : ValidAt 1 v) {slack : Nat}
    (hslack : ∀ p w segs, v.Reaches p w → w.OwnChain segs → segs.length ≤ slack) :
    v.nesting ≤ 2 * (nodeLimit - 1) + slack + 1 := by
  by_cases hv : v.isContainer = true
  · obtain ⟨segs, u, hsegs, hu, hdepth⟩ := Json.exists_leads_nesting hv
    have hdeep := h.depth_le hslack (.here v) hsegs hu
    rw [hdepth]
    omega
  · have hnone := mt Json.nesting_pos_iff.mp hv
    omega

/-! ## 4. Documents -/

/-- **The two limits agree.** The way up from a node passes at most 1024 nodes. The nodes come, in
    document order, from the objects in the places of the document, and one with `k` nodes on its
    way up comes from an object of level at most `2 * k - 1`. If no node has more than 9 containers
    nested in it that belong to no other node, the document nests at most 2056 containers, and its
    text is not refused for its nesting. -/
theorem ofJson_limits_agree {v : Json} {d : Document} (h : (Document.ofJson v).value = .ok d) :
    (∀ i < d.arena.size, (d.arena.ancestors (some i)).value.length ≤ 1024) ∧
    ((d.arena.preorder (some d.root)).Perm (List.range d.arena.size) ∧
      (∀ p w, (p, w) ∈ v.places ↔ v.Reaches p w) ∧
      List.Forall₂ (fun place i => v.Leads (Path.segments place.1) place.2 ∧
        d.arena.Holds place.2 i ∧
        (d.arena.ancestors (some i)).value.length = place.1.length + 1 ∧
        Path.level place.1 ≤ 2 * (d.arena.ancestors (some i)).value.length - 1)
        v.places (d.arena.preorder (some d.root))) ∧
    ((∀ p w segs, v.Reaches p w → w.OwnChain segs → segs.length ≤ 9) →
      v.nesting ≤ 2056 ∧ nestingLimit = 2056 ∧
      nestsDeeper nestingLimit v.compactText.toList = false) := by
  have hvalid := ofJson_validAt h
  have hwalk := ofJson_forall₂_places h
  have hperm : (d.arena.preorder (some d.root)).Perm (List.range d.arena.size) := by
    rw [Arena.preorder_eq_parentsFirst (ofJson_forest h).isTree.bottomUp, ← ofJson_childrenFirst h]
    exact d.arena.parentsFirst_perm_childrenFirst d.root
  refine ⟨fun i hi => ?_, ⟨hperm, fun p w => hvalid.mem_places_iff, hwalk.imp ?_⟩, fun hslack => ?_⟩
  · have hmem := hperm.mem_iff.mpr (List.mem_range.mpr hi)
    obtain ⟨place, hreaches, _, hlength⟩ := exists_rel_of_mem hwalk hmem
    rw [hlength]
    exact hvalid.length_lt hreaches
  · rintro place i ⟨hreaches, hholds, hlength⟩
    have hsegments := Path.length_segments place.1
    refine ⟨hreaches.leads, hholds, hlength, ?_⟩
    rw [hlength, Path.level]
    omega
  · have hnesting : v.nesting ≤ nestingLimit := hvalid.nesting_le hslack
    refine ⟨hnesting, rfl, ?_⟩
    rw [Document.nestsDeeper_compactText, decide_eq_false (Nat.not_lt.mpr hnesting)]

/-- A literal in that many arrays, whose value is a tower of 9 arrays. -/
def nestedArrays : Nat → Json
  | 0 => .obj [("type", .str "Literal"), ("value", Document.tower 9)]
  | n + 1 => .obj [("type", .str "ArrayExpression"), ("elements", .arr [nestedArrays n])]

theorem nesting_nestedArrays (n : Nat) : (nestedArrays n).nesting = 2 * n + 10 := by
  induction n with
  | zero => rfl
  | succ n ih =>
    simp only [nestedArrays, Json.nesting, Json.nestingFields, Json.nestingItems, ih]
    omega

theorem validAt_nestedArrays {n level : Nat} (h : level + n ≤ nodeLimit) :
    ValidAt level (nestedArrays n) := by
  induction n generalizing level with
  | zero =>
    refine validAt_iff.mpr ⟨h, "Literal", _, ⟨rfl, rfl⟩, ?_, fun hkind => ?_⟩
    · exact fun field hfield => absurd hfield List.not_mem_nil
    · cases hkind
  | succ n ih =>
    have hbelow : ValidAt (level + 1) (nestedArrays n) := ih (by omega)
    refine validAt_iff.mpr ⟨by omega, "ArrayExpression", _, ⟨rfl, rfl⟩, ?_, fun hkind => ?_⟩
    · intro field hfield
      cases List.mem_singleton.mp hfield
      refine ⟨[nestedArrays n], rfl, List.forall_mem_singleton.mpr (.inr ⟨?_, hbelow⟩)⟩
      cases n <;> exact fun hnull => nomatch hnull
    · cases hkind

/-- The outermost of one array more. -/
def outerArray (n : Nat) : Source :=
  ⟨"ArrayExpression", [("type", .str "ArrayExpression"), ("elements", .arr [nestedArrays n])]⟩

theorem demands_outerArray (n : Nat) :
    (outerArray n).demands = [.child ⟨"elements", some 0⟩ (nestedArrays n)] := by
  cases n <;> rfl

/-- The arrays are the only nodes around the literal. -/
theorem exists_of_reaches_nestedArrays {n : Nat} {p : Path} {w : Json}
    (h : (nestedArrays n).Reaches p w) : ∃ m, w = nestedArrays m := by
  induction n generalizing p with
  | zero =>
    cases h with
    | here => exact ⟨0, rfl⟩
    | child hv hw _ =>
      cases hv
      cases hw.mem_childPlaces (p := fun _ => True) fun d hd => absurd hd List.not_mem_nil
  | succ n ih =>
    cases h with
    | here => exact ⟨n + 1, rfl⟩
    | @child _ c _ _ step _ hv hw hu =>
      cases hv
      have hadmits : ∀ d ∈ (outerArray n).demands, d.Admits fun _ => True := by
        rw [demands_outerArray]
        exact List.forall_mem_singleton.mpr trivial
      have hmem : .child step c ∈ (outerArray n).demands :=
        Source.mem_childPlaces.mp (hw.mem_childPlaces hadmits)
      rw [demands_outerArray] at hmem
      cases List.mem_singleton.mp hmem
      exact ih hu

/-- What an array has of its own is the list of its elements, and a literal has its value. -/
theorem ownChain_nestedArrays {n : Nat} {segs : List Segment}
    (h : (nestedArrays n).OwnChain segs) : segs.length ≤ 9 := by
  obtain ⟨u, hsegs, hu, hown⟩ := h
  cases n with
  | zero => exact Nat.le_of_lt_succ (hsegs.length_lt_nesting hu)
  | succ n =>
    cases hsegs with
    | here => exact Nat.zero_le 9
    | @field key fields w u rest hw hrest =>
      rcases List.mem_cons.mp hw with e | hw
      · cases e
        cases hrest
        cases hu
      · cases List.mem_singleton.mp hw
        cases hrest with
        | here => exact Nat.le_add_left 1 8
        | @index i items w u rest hw hrest =>
          -- the element is a node, so the chain enters it
          have hi : i = 0 := by
            have hlt := (List.getElem?_eq_some_iff.mp hw).1
            rw [List.length_singleton] at hlt
            omega
          subst hi
          cases hw
          have hchild : (outerArray n).Child ⟨"elements", some 0⟩ (nestedArrays n) := by
            refine Source.child_of_mem_childPlaces (Source.mem_childPlaces.mpr ?_)
            rw [demands_outerArray]
            exact List.mem_singleton_self _
          exact absurd hrest (hown [⟨"elements", some 0⟩] _ _ (List.cons_ne_nil _ _)
            (.child rfl hchild (.here _)) rfl)

/-- The literal lies 1024 nodes deep and its value 2056 containers deep, which is as deep as
    either may be. -/
theorem nestedArrays_limits_agree :
    ∃ d, (Document.ofJson (nestedArrays 1023)).value = .ok d ∧
      (∀ p w segs, (nestedArrays 1023).Reaches p w → w.OwnChain segs → segs.length ≤ 9) ∧
      (nestedArrays 1023).nesting = 2056 ∧
      nestsDeeper nestingLimit (nestedArrays 1023).compactText.toList = false := by
  have hvalid : ValidAt 1 (nestedArrays 1023) := validAt_nestedArrays (by decide)
  obtain ⟨d, hd⟩ := (ofJson_isOk_iff _).mpr hvalid
  have hslack : ∀ p w segs, (nestedArrays 1023).Reaches p w → w.OwnChain segs →
      segs.length ≤ 9 := by
    intro p w segs hp hsegs
    obtain ⟨m, rfl⟩ := exists_of_reaches_nestedArrays hp
    exact ownChain_nestedArrays hsegs
  exact ⟨d, hd, hslack, nesting_nestedArrays 1023, ((ofJson_limits_agree hd).2.2 hslack).2.2⟩

end CallNames
