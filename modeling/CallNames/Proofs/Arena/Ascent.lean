import CallNames.Proofs.Arena.Ancestry
import Mathlib.Data.List.Perm.Subperm
import Mathlib.Logic.Function.Iterate
import Mathlib.Order.Bounds.Defs

/-!
# Upward along any links

The parents that the nodes of an arena store may be any handles: they may run in a circle or lead
out of the arena.

* `Ascent` is an upward walk that is asked for one node after the other. It counts the nodes that it
  has given, and once it has given as many as there are it gives up, **for good**;
* `ask_eq`: asked any number of times, it answers with the ancestors and then with nothing;
* `nodup_links`: links that lead out of the arena at last do not pass a node twice. So there are at
  most as many as there are nodes, and **giving up cuts only what would never end**
  (`ancestors_cut_exactly`).
-/

namespace CallNames

namespace Arena

variable {a : Arena}

/-! ## 1. A walk that is asked for its nodes -/

/-- Where an upward walk stands: what comes next, and how many nodes it has given. -/
structure Ascent where
  current : Ref
  given : Nat := 0
deriving DecidableEq, Repr

/-- **Asks a walk for its next node.** The walk has none if nothing comes next; if it has given as
    many nodes as there are, it reports that and lets nothing come next any more. -/
def ascend (a : Arena) (w : Ascent) : Traced (Option Nat × Ascent) :=
  match a.lookup? w.current with
  | none => ⟨(none, w), []⟩
  | some (i, n) =>
    if a.size ≤ w.given then ⟨(none, { w with current := none }), [.walkCut i]⟩
    else ⟨(some i, ⟨n.parent, w.given + 1⟩), []⟩

/-- Asks a walk several times, one after the other. -/
def ask (a : Arena) : Nat → Ascent → Traced (List (Option Nat))
  | 0, _ => pure []
  | m + 1, w => do
    let (answer, w) ← a.ascend w
    let answers ← a.ask m w
    pure (answer :: answers)

theorem ask_succ (m : Nat) (w : Ascent) :
    a.ask (m + 1) w =
      ⟨(a.ascend w).value.1 :: (a.ask m (a.ascend w).value.2).value,
        (a.ascend w).events ++ (a.ask m (a.ascend w).value.2).events⟩ := by
  show Traced.mk _ ((a.ascend w).events ++ ((a.ask m (a.ascend w).value.2).events ++ [])) = _
  rw [List.append_nil]
  rfl

theorem ascend_of_none {w : Ascent} (h : a.lookup? w.current = none) :
    a.ascend w = ⟨(none, w), []⟩ := by
  rw [ascend, h]

/-- **A walk that has ended stays ended**, and reports nothing more. -/
theorem ask_of_none {w : Ascent} (h : a.lookup? w.current = none) (m : Nat) :
    a.ask m w = ⟨List.replicate m none, []⟩ := by
  induction m with
  | zero => rfl
  | succ m ih =>
    rw [ask_succ, ascend_of_none h]
    show Traced.mk (none :: (a.ask m w).value) ([] ++ (a.ask m w).events) = _
    rw [ih]
    rfl

theorem events_climb (a : Arena) (room : Nat) (r : Ref) (visited : List Nat) :
    (a.climb room r visited).events = (a.climb room r []).events := by
  induction room generalizing r visited with
  | zero => rfl
  | succ room ih =>
    simp only [climb]
    cases a.lookup? r with
    | none => rfl
    | some e => exact (ih e.2.parent (e.1 :: visited)).trans (ih e.2.parent [e.1]).symm

/-- A walk with room left lists the node that comes next and then what is above it. -/
theorem climb_succ_of_some {room i : Nat} {r : Ref} {n : Node} (h : a.lookup? r = some (i, n)) :
    a.climb (room + 1) r [] =
      ⟨i :: (a.climb room n.parent []).value, (a.climb room n.parent []).events⟩ := by
  have hvalue : (a.climb room n.parent [i]).value = i :: (a.climb room n.parent []).value :=
    value_climb a room n.parent [i]
  rw [climb, h, ← hvalue, ← events_climb a room n.parent [i]]

theorem climb_of_none {r : Ref} (h : a.lookup? r = none) (room : Nat) :
    a.climb room r [] = ⟨[], []⟩ := by
  cases room <;> simp [climb, h]

/-- What a walk answers from where it stands: what is listed above it, and then nothing. The report
    comes with the first answer that is nothing. -/
theorem ask_eq_climb (m : Nat) {room : Nat} {w : Ascent} (hroom : room + w.given = a.size) :
    a.ask m w =
      ⟨(List.range m).map fun j => (a.climb room w.current []).value[j]?,
        if m ≤ (a.climb room w.current []).value.length then []
        else (a.climb room w.current []).events⟩ := by
  induction m generalizing room w with
  | zero => simp [ask]; rfl
  | succ m ih =>
    cases h : a.lookup? w.current with
    | none => simp [ask_of_none h, climb_of_none h]
    | some e =>
      obtain ⟨i, n⟩ := e
      cases room with
      | zero =>
        -- the walk has given all that it may give
        have hnext : a.ascend w = ⟨(none, { w with current := none }), [.walkCut i]⟩ := by
          rw [ascend, h]
          exact if_pos (by omega)
        have hended := ask_of_none (a := a) (w := { w with current := none }) rfl m
        rw [ask_succ, hnext]
        simp [hended, climb, h, List.replicate_succ]
      | succ room =>
        have hnext : a.ascend w = ⟨(some i, ⟨n.parent, w.given + 1⟩), []⟩ := by
          rw [ascend, h]
          exact if_neg (by omega)
        have hrest := @ih room ⟨n.parent, w.given + 1⟩ (show room + (w.given + 1) = a.size by omega)
        rw [ask_succ, hnext, climb_succ_of_some h, hrest]
        simp [List.range_succ_eq_map]

/-- **Asked any number of times, a walk answers with the ancestors and then with nothing**, and it
    reports what cuts it once, however often it is asked. -/
theorem ask_eq (a : Arena) (s : Ref) (m : Nat) :
    a.ask m ⟨s, 0⟩ =
      ⟨(List.range m).map fun j => (a.ancestors s).value[j]?,
        if m ≤ (a.ancestors s).value.length then [] else (a.ancestors s).events⟩ :=
  ask_eq_climb m (Nat.add_zero a.size)

/-! ## 2. Links -/

/-- **The links from a reference lead out of the arena**, and `k` is the first step at which they
    are outside. -/
def LeadsOut (a : Arena) (s : Ref) (k : Nat) : Prop :=
  IsLeast { j | a.get? (a.parent?^[j] s) = none } k

/-- The references that the links pass in their first steps. -/
def links (a : Arena) (s : Ref) (k : Nat) : List Ref := (List.range k).map fun j => a.parent?^[j] s

theorem links_succ (s : Ref) (k : Nat) : a.links s (k + 1) = s :: a.links (a.parent? s) k := by
  rw [links, List.range_succ_eq_map, List.map_cons, List.map_map]
  rfl

/-- **Links that lead out pass nothing twice**: they would go on in a circle from there. -/
theorem LeadsOut.nodup_links {s : Ref} {k : Nat} (h : a.LeadsOut s k) : (a.links s k).Nodup := by
  have hne : ∀ i j, i < j → j < k → a.parent?^[i] s ≠ a.parent?^[j] s := by
    intro i j hij hjk e
    -- as far behind the first of the two as the end is behind the second, there is an end too
    have hend : a.get? (a.parent?^[k - j + i] s) = none := by
      rw [Function.iterate_add_apply, e, ← Function.iterate_add_apply,
        Nat.sub_add_cancel (by omega)]
      exact h.1
    have hleast := h.2 hend
    omega
  refine List.nodup_range.map_on ?_
  intro i hi j hj e
  rw [List.mem_range] at hi hj
  rcases Nat.lt_trichotomy i j with hij | heq | hji
  · exact absurd e (hne i j hij hj)
  · exact heq
  · exact absurd e.symm (hne j i hji hi)

theorem get?_ne_none_iff {r : Ref} : a.get? r ≠ none ↔ ∃ i n, r = some i ∧ a.node? i = some n := by
  cases r with
  | none => simp
  | some i => simp [Option.ne_none_iff_exists']

/-- Behind the first node, the links lead out one step earlier. -/
theorem LeadsOut.parent {s : Ref} {k : Nat} (h : a.LeadsOut s (k + 1)) :
    a.LeadsOut (a.parent? s) k := by
  refine ⟨h.1, fun j hj => ?_⟩
  have hleast : k + 1 ≤ j + 1 := h.2 hj
  omega

/-- An upward walk along links that lead out ends by itself. -/
theorem LeadsOut.exists_climbs {s : Ref} {k : Nat} (h : a.LeadsOut s k) :
    ∃ l, a.Climbs s l ∧ l.map some = a.links s k := by
  induction k generalizing s with
  | zero => exact ⟨[], .stop h.1, rfl⟩
  | succ k ih =>
    have hnode : a.get? s ≠ none := fun hnone => absurd (h.2 hnone) (Nat.not_succ_le_zero k)
    obtain ⟨i, n, rfl, hn⟩ := get?_ne_none_iff.mp hnode
    obtain ⟨l, hl, hlinks⟩ := ih h.parent
    refine ⟨i :: l, .node hn (parent?_of_node? hn ▸ hl), ?_⟩
    rw [links_succ, List.map_cons, hlinks]

theorem Climbs.lt_size {r : Ref} {l : List Nat} (h : a.Climbs r l) : ∀ i ∈ l, i < a.size := by
  induction h with
  | stop => exact fun _ hi => absurd hi List.not_mem_nil
  | node hn _ ih => exact List.forall_mem_cons.mpr ⟨lt_size_of_node? hn, ih⟩

/-- Different handles of an arena are no more than it has nodes. -/
theorem length_le_size {l : List Nat} (hnodup : l.Nodup) (hl : ∀ i ∈ l, i < a.size) :
    l.length ≤ a.size := by
  have hsub : l ⊆ List.range a.size := fun i hi => List.mem_range.mpr (hl i hi)
  have hlength := (hnodup.subperm hsub).length_le
  rwa [List.length_range] at hlength

/-- Where the links never lead out, a walk goes on as long as it may, and is cut. -/
theorem exists_climb_of_endless {s : Ref} (h : ∀ k, a.get? (a.parent?^[k] s) ≠ none) (room : Nat) :
    ∃ l i, a.climb room s [] = ⟨l, [.walkCut i]⟩ ∧ l.map some = a.links s room ∧
      a.parent?^[room] s = some i := by
  induction room generalizing s with
  | zero =>
    obtain ⟨i, n, rfl, hn⟩ := get?_ne_none_iff.mp (h 0)
    refine ⟨[], i, ?_, rfl, rfl⟩
    rw [climb, lookup?_of_node? hn]
    rfl
  | succ room ih =>
    obtain ⟨i, n, rfl, hn⟩ := get?_ne_none_iff.mp (h 0)
    obtain ⟨l, j, hclimb, hlinks, hj⟩ := ih fun k => h (k + 1)
    refine ⟨i :: l, j, ?_, ?_, hj⟩
    · rw [climb_succ_of_some (lookup?_of_node? hn), ← parent?_of_node? hn, hclimb]
    · rw [links_succ, List.map_cons, hlinks]

/-! ## 3. The cut -/

/-- **An upward walk is cut exactly where the links never lead out.** If they lead out, the walk
    passes the nodes up to there, all different and no more than there are nodes, and reports
    nothing. If they never do, it passes as many nodes as there are and reports that once. Asked for
    its nodes one by one, it gives these nodes, and behind the last one it stays ended. -/
theorem ancestors_cut_exactly (a : Arena) (s : Ref) :
    (∀ k, a.LeadsOut s k →
      (a.ancestors s).value.map some = a.links s k ∧ (a.ancestors s).value.Nodup ∧ k ≤ a.size ∧
      (a.ancestors s).events = []) ∧
    ((∀ k, a.get? (a.parent?^[k] s) ≠ none) →
      (a.ancestors s).value.map some = a.links s a.size ∧
      ∃ i, a.parent?^[a.size] s = some i ∧ (a.ancestors s).events = [.walkCut i] ∧
        (Event.walkCut i).message = "ancestor walk longer than the arena") ∧
    ∀ m, a.ask m ⟨s, 0⟩ =
      ⟨(List.range m).map fun j => (a.ancestors s).value[j]?,
        if m ≤ (a.ancestors s).value.length then [] else (a.ancestors s).events⟩ := by
  refine ⟨fun k hk => ?_, fun h => ?_, ask_eq a s⟩
  · obtain ⟨l, hl, hlinks⟩ := hk.exists_climbs
    have hnodup : l.Nodup := by
      have hmap := hk.nodup_links
      rw [← hlinks] at hmap
      exact hmap.of_map _
    have hlength : l.length = k := by
      have hmap := congrArg List.length hlinks
      simpa [links] using hmap
    have hle := length_le_size hnodup hl.lt_size
    rw [hl.ancestors_eq hle]
    exact ⟨hlinks, hnodup, hlength ▸ hle, rfl⟩
  · obtain ⟨l, i, hclimb, hlinks, hi⟩ := exists_climb_of_endless h a.size
    have hancestors : a.ancestors s = ⟨l, [.walkCut i]⟩ := hclimb
    rw [hancestors]
    exact ⟨hlinks, i, hi, rfl, rfl⟩

/-- Three nodes in a chain, the last one with a parent that is not there. -/
def openChain : Arena :=
  ⟨#[{ parent := some 1, form := .this }, { parent := some 2, form := .this },
    { parent := some 9, form := .this }]⟩

/-- Two nodes that are the parents of each other. -/
def ring : Arena := ⟨#[{ parent := some 1, form := .this }, { parent := some 0, form := .this }]⟩

theorem openChain_leadsOut : openChain.LeadsOut (some 0) 3 := by
  refine ⟨rfl, fun j hj => ?_⟩
  by_contra hlt
  obtain rfl | rfl | rfl : j = 0 ∨ j = 1 ∨ j = 2 := by omega
  all_goals cases hj

theorem ring_endless (k : Nat) : ring.get? (ring.parent?^[k] (some 0)) ≠ none := by
  have hstays : ring.parent?^[k] (some 0) = some 0 ∨ ring.parent?^[k] (some 0) = some 1 := by
    induction k with
    | zero => exact .inl rfl
    | succ k ih =>
      rw [Function.iterate_succ_apply']
      rcases ih with e | e
      · exact .inr (by rw [e]; rfl)
      · exact .inl (by rw [e]; rfl)
  rcases hstays with e | e
  · rw [e]; decide
  · rw [e]; decide

/-- A chain through all nodes is not cut. Around the ring the walk is cut after two nodes; asked
    four times, it gives these two and then twice nothing, with one report. -/
theorem openChain_ring_cut_exactly :
    openChain.LeadsOut (some 0) 3 ∧
    (openChain.ancestors (some 0)).value.map some = openChain.links (some 0) openChain.size ∧
    (openChain.ancestors (some 0)).events = [] ∧
    (∀ k, ring.get? (ring.parent?^[k] (some 0)) ≠ none) ∧
    (ring.ancestors (some 0)).value.map some = ring.links (some 0) 2 ∧
    ring.ask 4 ⟨some 0, 0⟩ = ⟨[some 0, some 1, none, none], [.walkCut 0]⟩ := by
  obtain ⟨hchain, _, _, hreport⟩ :=
    (ancestors_cut_exactly openChain (some 0)).1 3 openChain_leadsOut
  obtain ⟨_, hring, hask⟩ := ancestors_cut_exactly ring (some 0)
  exact ⟨openChain_leadsOut, hchain, hreport, ring_endless, (hring ring_endless).1, hask 4⟩

end Arena

end CallNames
