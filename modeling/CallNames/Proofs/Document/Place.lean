import CallNames.Proofs.Document.Schema

/-!
# Following a path

A path is a list of steps, one for every node on the way. As text it is a list of segments, which
are fields and places in arrays, and a segment can be followed from any value.

* `Json.Leads`: following segments one by one, without regard to what a node is;
* `Source.Child` and `Json.Reaches`: **the places that loading can come to**, step by step from
  node to node. Each step leaves exactly one node, so a place lies inside as many nodes as its path
  has steps;
* `write_segments` and `Reaches.leads`: the two readings of a path agree.
-/

namespace CallNames

/-! ## 1. Segments -/

/-- A segment of a path: a field of an object, or a place in an array. -/
inductive Segment where
  | field (key : String)
  | index (i : Nat)
deriving DecidableEq, Repr

namespace Segment

/-- Segments behind others as text: `.field` and `[index]`. -/
def writeBehind : List Segment → String
  | [] => ""
  | .field key :: rest => "." ++ key ++ writeBehind rest
  | .index i :: rest => "[" ++ Nat.repr i ++ "]" ++ writeBehind rest

/-- **Segments as text**: `a.b[0].c`, and `<root>` for none. -/
def write : List Segment → String
  | [] => "<root>"
  | .field key :: rest => key ++ writeBehind rest
  | .index i :: rest => "[" ++ Nat.repr i ++ "]" ++ writeBehind rest

end Segment

/-- The segments of a step. -/
def Step.segments (s : Step) : List Segment :=
  match s.index with
  | none => [.field s.field]
  | some i => [.field s.field, .index i]

/-- The segments of a path. -/
def Path.segments (p : Path) : List Segment := p.flatMap Step.segments

theorem Path.segments_cons (s : Step) (p : Path) :
    Path.segments (s :: p) = s.segments ++ Path.segments p := List.flatMap_cons

/-- The text of a step and of all behind it. -/
theorem Segment.write_step (s : Step) (rest : List Segment) :
    write (s.segments ++ rest) = s.render ++ writeBehind rest := by
  obtain ⟨field, index⟩ := s
  cases index with
  | none => rfl
  | some i =>
    show field ++ ("[" ++ Nat.repr i ++ "]" ++ writeBehind rest) = _
    simp only [Step.render, String.append_assoc]

theorem Segment.writeBehind_step (s : Step) (rest : List Segment) :
    writeBehind (s.segments ++ rest) = "." ++ (s.render ++ writeBehind rest) := by
  rw [← write_step]
  obtain ⟨field, index⟩ := s
  cases index with
  | none => exact String.append_assoc
  | some i => exact String.append_assoc

theorem Segment.intercalate_render (s : Step) (p : Path) :
    ".".intercalate ((s :: p).map Step.render) = s.render ++ writeBehind p.segments := by
  induction p generalizing s with
  | nil =>
    rw [List.map_singleton, String.intercalate_singleton]
    exact (String.append_empty).symm
  | cons s' p ih =>
    rw [List.map_cons, List.map_cons, String.intercalate_cons_cons, ← List.map_cons, ih s',
      Path.segments_cons, writeBehind_step, String.append_assoc]

/-- **A path and its segments have the same text.** -/
theorem Path.write_segments (p : Path) : Segment.write p.segments = p.render := by
  cases p with
  | nil => rfl
  | cons s p =>
    rw [segments_cons, Segment.write_step, ← Segment.intercalate_render]
    rfl

/-! ## 2. Following segments -/

/-- **Segments lead from one value to another**: into the value of a field, or to an entry of an
    array. -/
inductive Json.Leads : Json → List Segment → Json → Prop where
  | here (v : Json) : Leads v [] v
  | field {key : String} {fields : Fields} {w u : Json} {rest : List Segment}
      (hw : (key, w) ∈ fields) (hu : Leads w rest u) :
      Leads (.obj fields) (.field key :: rest) u
  | index {i : Nat} {items : List Json} {w u : Json} {rest : List Segment}
      (hw : items[i]? = some w) (hu : Leads w rest u) :
      Leads (.arr items) (.index i :: rest) u

/-! ## 3. Places of children -/

namespace Source

/-- **Where an object has a child**, or a `null` in the place of one. -/
inductive Child (src : Source) : Step → Json → Prop where
  /-- A field that may hold a single child; `null` stands for none. -/
  | single {key : String} {rule : Rule} {w : Json} (hkey : (key, rule) ∈ src.kind.schema)
      (hrule : rule = .child ∨ rule = .optionalChild) (hw : src.field? key = some w)
      (hnull : w ≠ .null) : Child src ⟨key, none⟩ w
  /-- An entry of a list of children; `null` is passed over where it stands for a hole. -/
  | entry {key : String} {rule : Rule} {items : List Json} {i : Nat} {w : Json}
      (hkey : (key, rule) ∈ src.kind.schema)
      (hrule : (∃ holes, rule = .children holes) ∨ rule = .optionalChildren)
      (hitems : src.field? key = some (.arr items)) (hw : items[i]? = some w)
      (hhole : w = .null → rule ≠ .children true) : Child src ⟨key, some i⟩ w
  /-- Any field of an unmodelled node that looks like a node. -/
  | site {key : String} {w : Json} (hkind : src.kind = .other) (hw : (key, w) ∈ src.fields)
      (hnode : isNode w = true) : Child src ⟨key, none⟩ w
  /-- Any entry of a field of an unmodelled node that looks like a node. -/
  | siteEntry {key : String} {items : List Json} {i : Nat} {w : Json} (hkind : src.kind = .other)
      (hitems : (key, .arr items) ∈ src.fields) (hw : items[i]? = some w)
      (hnode : isNode w = true) : Child src ⟨key, some i⟩ w

variable {src : Source} {step : Step} {w : Json}

/-- The segments of a step lead to the child. -/
theorem Child.leads {u : Json} {rest : List Segment} (h : src.Child step w) (hu : w.Leads rest u) :
    (Json.obj src.fields).Leads (step.segments ++ rest) u := by
  cases h with
  | single _ _ hw _ => exact .field (mem_fields_of_field? hw) hu
  | entry _ _ hitems hw _ => exact .field (mem_fields_of_field? hitems) (.index hw hu)
  | site _ hw _ => exact .field hw hu
  | siteEntry _ hitems hw _ => exact .field hitems (.index hw hu)

/-- The place that a demand of the slots of a field is about. -/
theorem child_of_mem_slotDemands {key : String} {rule : Rule} {d : Demand}
    (hkey : (key, rule) ∈ src.kind.schema) (hdefect : src.fieldDefect? (key, rule) = none)
    (hd : d ∈ rule.slotDemands key (src.field? key)) (hplace : d.place? = some (step, w)) :
    src.Child step w := by
  rcases Rule.mem_slotDemands_cases hd with ⟨rfl, _⟩ | ⟨x, rfl, hx, hrule⟩ |
    ⟨holes, items, i, x, rfl, hitems, hx, hrule⟩
  · cases hplace
  · cases hplace
    rcases hrule with rfl | ⟨rfl, hnull⟩
    · refine .single hkey (.inl rfl) hx fun hnull => ?_
      rw [fieldDefect?, hx, hnull] at hdefect
      cases hdefect
    · exact .single hkey (.inr rfl) hx hnull
  · have hlist : (∃ holes, rule = .children holes) ∨ rule = .optionalChildren := by
      rcases hrule with h | h
      · exact .inl ⟨holes, h⟩
      · exact .inr h.1
    rcases Demand.ofEntry_cases holes ⟨key, some i⟩ x with ⟨_, _, e⟩ | ⟨rfl, hholes, e⟩ | ⟨hnull, e⟩
    · rw [e] at hplace
      cases hplace
    · rw [e] at hplace
      cases hplace
      refine .entry hkey hlist hitems hx fun _ hhole => ?_
      rw [hhole, hholes] at hrule
      rcases hrule with h | h
      · cases h
      · cases h.1
    · rw [e] at hplace
      cases hplace
      exact .entry hkey hlist hitems hx fun h => absurd h hnull

/-- **What an object asks to load, or refuses where a child should be, is in the place of a
    child.** -/
theorem child_of_mem_demands {d : Demand} (hd : d ∈ src.demands)
    (hplace : d.place? = some (step, w)) : src.Child step w := by
  rcases mem_demands_cases hd with ⟨hk, key, x, step', w', rfl, hx, hsite⟩ |
    ⟨_, key, rule, hkey, ⟨defect, rfl, _⟩ | ⟨hdefect, hslot⟩⟩
  · cases hplace
    obtain ⟨hnode, hwhere⟩ := mem_childSites_iff.mp hsite
    rcases hwhere with ⟨rfl, rfl⟩ | ⟨items, i, rfl, hi, rfl⟩
    · exact .site hk hx hnode
    · exact .siteEntry hk hx hi hnode
  · cases hplace
  · exact child_of_mem_slotDemands hkey hdefect hslot hplace

end Source

/-- **A path goes from node to node**, by a step to a child each time. -/
inductive Json.Reaches : Json → Path → Json → Prop where
  | here (v : Json) : Reaches v [] v
  | child {v w u : Json} {src : Source} {step : Step} {p : Path} (hv : v.source? = some src)
      (hw : src.Child step w) (hu : Reaches w p u) : Reaches v (step :: p) u

/-- The segments of a path lead where the path goes. -/
theorem Json.Reaches.leads {v u : Json} {p : Path} (h : v.Reaches p u) : v.Leads p.segments u := by
  induction h with
  | here v => exact .here v
  | child hv hw _ ih =>
    rw [(Json.source?_eq_some_iff.mp hv).1, Path.segments_cons]
    exact hw.leads ih

end CallNames
