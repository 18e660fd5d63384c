import CallNames.Node.Form
import Mathlib.Data.List.Basic

/-!
# Forms and their slots

A form is a shape together with what its slots hold, and the two can be taken apart:

* `Form.refill` puts other contents into the slots of a form, in the order of `Form.slots`;
* `refill_slots`: **all that a form holds is in its slots**. The new contents may be of another
  type than the old ones, so nothing of a form's children can stand outside of them;
* `Form.traverse?` acts on the children of a form slot by slot.
-/

namespace CallNames

namespace Form

variable {α β γ : Type}

/-! ## 1. Putting contents into a shape -/

/-- What the slot at a place holds; a place past the end is empty. -/
def slotAt (rs : List (Option α)) (i : Nat) : Option α := rs[i]?.join

/-- **The same form with other contents in its slots**, in the order of `slots`. -/
def refill (f : Form α) (rs : List (Option β)) : Form β :=
  match f with
  | .program _ => .program rs
  | .block _ => .block rs
  | .expressionStatement _ => .expressionStatement (slotAt rs 0)
  | .returnStatement _ => .returnStatement (slotAt rs 0)
  | .declaration kind _ => .declaration kind rs
  | .declarator _ _ => .declarator (slotAt rs 0) (slotAt rs 1)
  | .identifier name => .identifier name
  | .this => .this
  | .literal raw => .literal raw
  | .member _ _ computed => .member (slotAt rs 0) (slotAt rs 1) computed
  | .call style _ _ => .call style (slotAt rs 0) rs.tail
  | .function style _ _ _ =>
    .function style (slotAt rs 0) rs.tail.dropLast rs.tail.getLast?.join
  | .assignment operator _ _ => .assignment operator (slotAt rs 0) (slotAt rs 1)
  | .property _ _ computed => .property (slotAt rs 0) (slotAt rs 1) computed
  | .object _ => .object rs
  | .array _ => .array rs
  | .conditional _ _ _ => .conditional (slotAt rs 0) (slotAt rs 1) (slotAt rs 2)
  | .other typeName _ => .other typeName rs

/-- **All that a form holds is in its slots.** -/
@[simp] theorem refill_slots (f : Form α) : f.refill f.slots = f := by
  cases f <;> simp [refill, slots, slotAt]

/-- Only the shape of a refilled form counts for the next refill. -/
@[simp] theorem refill_refill (f : Form α) (rs : List (Option β)) (ts : List (Option γ)) :
    (f.refill rs).refill ts = f.refill ts := by
  cases f <;> rfl

/-- A refilled form holds what was put into it, as long as that fits. -/
theorem slots_refill {f : Form α} {rs : List (Option β)} (h : rs.length = f.slots.length) :
    (f.refill rs).slots = rs := by
  cases f with
  | program | block | declaration | object | array | other => rfl
  | identifier | this | literal => exact (List.length_eq_zero_iff.mp h).symm
  | expressionStatement | returnStatement =>
    obtain ⟨a, rfl⟩ := List.length_eq_one_iff.mp h
    rfl
  | declarator | member | assignment | property =>
    obtain ⟨a, b, rfl⟩ := List.length_eq_two.mp h
    rfl
  | conditional =>
    obtain ⟨a, b, c, rfl⟩ := List.length_eq_three.mp h
    rfl
  | call =>
    cases rs with
    | nil => simp [slots] at h
    | cons r rs => rfl
  | function =>
    cases rs with
    | nil => simp [slots] at h
    | cons r rs =>
      -- behind the name stand the parameters and, last of all, the body
      have hne : rs ≠ [] := by
        intro e
        subst e
        simp [slots] at h
      simp [refill, slots, slotAt, List.getLast?_eq_some_getLast hne,
        List.dropLast_concat_getLast hne]

/-- The children of a refilled form. -/
theorem children_refill {f : Form α} {rs : List (Option β)} (h : rs.length = f.slots.length) :
    (f.refill rs).children = rs.filterMap id := by
  rw [children, slots_refill h]

/-! ## 2. Acting on all children -/

/-- **Acts on the children of a form, slot by slot**; fails if it fails for one of them. -/
def traverse? (g : α → Option β) (f : Form α) : Option (Form β) :=
  (f.slots.mapM (Option.mapM g)).map f.refill

/-- Acts on one slot of a form, where the action may use that it is given a child of the form. -/
def slotMem? (f : Form α) (g : (a : α) → some a ∈ f.slots → Option β) :
    { slot // slot ∈ f.slots } → Option (Option β)
  | ⟨none, _⟩ => some none
  | ⟨some a, h⟩ => (g a h).map some

/-- Acts on all children of a form, each of them known to be one. -/
def traverseMem? (f : Form α) (g : (a : α) → some a ∈ f.slots → Option β) : Option (Form β) :=
  (f.slots.attach.mapM (f.slotMem? g)).map f.refill

theorem traverseMem?_eq_traverse? (f : Form α) (g : α → Option β) :
    f.traverseMem? (fun a _ => g a) = f.traverse? g := by
  have hslot : f.slotMem? (fun a _ => g a) = Option.mapM g ∘ Subtype.val := by
    funext slot
    obtain ⟨slot, _⟩ := slot
    cases slot <;> rfl
  unfold traverseMem? traverse?
  rw [hslot, ← List.mapM_map, List.attach_map_subtype_val]

/-- What succeeds for all children of a form also succeeds with an action that goes further. -/
theorem mapM_slots_mono {g g' : α → Option β} (h : ∀ a b, g a = some b → g' a = some b)
    {rs : List (Option α)} {ts : List (Option β)} (hts : rs.mapM (Option.mapM g) = some ts) :
    rs.mapM (Option.mapM g') = some ts := by
  induction rs generalizing ts with
  | nil => exact hts
  | cons r rs ih =>
    rw [List.mapM_cons] at hts ⊢
    obtain ⟨t, ht, hts⟩ := Option.bind_eq_some_iff.mp hts
    obtain ⟨ts', hts', e⟩ := Option.bind_eq_some_iff.mp hts
    have ht' : Option.mapM g' r = some t := by
      cases r with
      | none => exact ht
      | some a =>
        obtain ⟨b, hb, rfl⟩ := Option.map_eq_some_iff.mp ht
        exact Option.map_eq_some_iff.mpr ⟨b, h a b hb, rfl⟩
    refine Option.bind_eq_some_iff.mpr ⟨t, ht', ?_⟩
    exact Option.bind_eq_some_iff.mpr ⟨ts', ih hts', e⟩

theorem traverse?_mono {g g' : α → Option β} (h : ∀ a b, g a = some b → g' a = some b)
    {f : Form α} {f' : Form β} (hf : f.traverse? g = some f') : f.traverse? g' = some f' := by
  obtain ⟨ts, hts, rfl⟩ := Option.map_eq_some_iff.mp hf
  exact Option.map_eq_some_iff.mpr ⟨ts, mapM_slots_mono h hts, rfl⟩

end Form

end CallNames
