import CallNames.Name.Operand
import CallNames.Proofs.Arena.Ancestry
import CallNames.Proofs.Document.Links

/-!
# Operands by position

Whether a node is an operand is found by comparing handles, and no node is asked for its parent. In
a loaded document a handle has one position only, so that the comparison finds out where the node
stands.

* `Form.fields` are the fields of a form by name, and `Form.StandsIn` says what stands in which;
* `Kind.operandFields` are the fields that operands stand in, for the kinds that have any rule;
* `Forest.nodup_children`: **no handle stands in two fields**;
* `ofJson_isOperand_positional`: the operands of a node are its own children in these fields and
  nothing else.
-/

namespace CallNames

/-! ## 1. Fields -/

/-- **The fields from which a kind of node takes its operands**; for any other kind every node
    counts as an operand. -/
def Kind.operandFields : Kind → Option (List String)
  | .callExpression => some ["arguments"]
  | .assignmentExpression => some ["right"]
  | .variableDeclarator => some ["init"]
  | .property => some ["value"]
  | .arrayExpression => some ["elements"]
  | .functionExpression => some []
  | .conditionalExpression => some ["consequent", "alternate"]
  | .arrowFunctionExpression => some ["body"]
  | _ => none

namespace Form

variable {α : Type}

/-- The fields of a form with the slots of each, in source order. -/
def fields : Form α → List (String × List (Option α))
  | .program body => [("body", body)]
  | .block body => [("body", body)]
  | .expressionStatement expression => [("expression", [expression])]
  | .returnStatement argument => [("argument", [argument])]
  | .declaration _ declarations => [("declarations", declarations)]
  | .declarator id init => [("id", [id]), ("init", [init])]
  | .identifier _ => []
  | .this => []
  | .literal _ => []
  | .member target key _ => [("object", [target]), ("property", [key])]
  | .call _ callee arguments => [("callee", [callee]), ("arguments", arguments)]
  | .function _ id params body => [("id", [id]), ("params", params), ("body", [body])]
  | .assignment _ left right => [("left", [left]), ("right", [right])]
  | .property key value _ => [("key", [key]), ("value", [value])]
  | .object properties => [("properties", properties)]
  | .array elements => [("elements", elements)]
  | .conditional test consequent alternate =>
    [("test", [test]), ("consequent", [consequent]), ("alternate", [alternate])]
  | .other _ children => [("children", children)]

/-- Something stands in a field of a form. -/
def StandsIn (f : Form α) (key : String) (r : Option α) : Prop :=
  ∃ slots, (key, slots) ∈ f.fields ∧ r ∈ slots

/-- All slots of a form are slots of its fields, in the same order. -/
theorem flatMap_fields (f : Form α) : f.fields.flatMap Prod.snd = f.slots := by
  cases f <;> simp [fields, slots]

theorem StandsIn.mem_slots {f : Form α} {key : String} {r : Option α} (h : f.StandsIn key r) :
    r ∈ f.slots := by
  obtain ⟨slots, hfield, hr⟩ := h
  rw [← flatMap_fields]
  exact List.mem_flatMap.mpr ⟨(key, slots), hfield, hr⟩

/-- **A child stands in one field only**, if all children of the form are different. -/
theorem StandsIn.key_unique {f : Form α} (hnodup : f.children.Nodup) {key key' : String} {x : α}
    (h : f.StandsIn key (some x)) (h' : f.StandsIn key' (some x)) : key = key' := by
  obtain ⟨slots, hfield, hx⟩ := h
  obtain ⟨slots', hfield', hx'⟩ := h'
  rw [children, ← flatMap_fields, List.filterMap_flatMap, List.nodup_flatMap] at hnodup
  have hsymm : Std.Symm (Function.onFun List.Disjoint
      fun field : String × List (Option α) => field.2.filterMap id) :=
    ⟨fun _ _ h x hx hx' => h hx' hx⟩
  by_contra hne
  have hdisjoint := hnodup.2.forall hfield hfield' (by simp [hne])
  exact hdisjoint (List.mem_filterMap.mpr ⟨_, hx, rfl⟩) (List.mem_filterMap.mpr ⟨_, hx', rfl⟩)

end Form

namespace Arena

variable {a : Arena} {roots : List Nat}

/-! ## 2. What is compared -/

/-- **What is compared with a node are the slots of the operand fields.** -/
theorem isOperand_iff_standsIn {r c : Ref} {form : Form Nat} {keys : List String}
    (hform : a.form? c = some form) (hkeys : form.kind.operandFields = some keys) :
    a.isOperand r c = true ↔ ∃ key ∈ keys, form.StandsIn key r := by
  unfold isOperand Form.StandsIn
  rw [hform]
  cases form with
  | call style callee arguments =>
    cases style <;> cases hkeys
    simp [Form.fields]
  | function style id params body =>
    cases style <;> cases hkeys <;> simp [Form.fields, @eq_comm _ r]
  | _ => cases hkeys <;> simp [Form.fields, @eq_comm _ r]

/-- A node without a rule has every node as an operand. -/
theorem isOperand_of_operandFields_eq_none {c : Ref} {form : Form Nat}
    (hform : a.form? c = some form) (hkeys : form.kind.operandFields = none) (r : Ref) :
    a.isOperand r c = true := by
  unfold isOperand
  rw [hform]
  cases form with
  | call style callee arguments =>
    cases style with
    | call => cases hkeys
    | construct => rfl
  | function style id params body =>
    cases style with
    | declaration => rfl
    | expression | arrow => cases hkeys
  | declarator | assignment | property | array | conditional => cases hkeys
  | _ => rfl

/-! ## 3. One position for each handle -/

/-- **No handle stands in two slots of a node.** -/
theorem Forest.nodup_children (h : Forest a roots) {p : Nat} {n : Node} (hn : a.node? p = some n) :
    n.form.children.Nodup := by
  have hall := (List.nodup_append.mp h.nodup).1
  rw [slots, List.filterMap_flatMap] at hall
  refine (List.nodup_flatMap.mp hall).1 n.form (List.mem_iff_getElem?.mpr ⟨p, ?_⟩)
  rw [getElem?_forms, hn]
  rfl

/-- What stands in a slot of a node has the node as its parent. -/
theorem IsTree.parent?_of_mem_slots {root : Nat} (h : a.IsTree root) {c n : Nat} {form : Form Nat}
    (hform : a.form? (some c) = some form) (hn : some n ∈ form.slots) :
    a.parent? (some n) = some c := by
  obtain ⟨m, hm, rfl⟩ := Option.map_eq_some_iff.mp hform
  obtain ⟨_, k, hk, hparent⟩ := h.linked c m n hm hn
  rw [parent?, get?_some, hk]
  exact hparent

/-- A node takes its operands from some of its fields. -/
def TakesFrom (a : Arena) (c : Nat) (form : Form Nat) (keys : List String) : Prop :=
  a.form? (some c) = some form ∧ form.kind.operandFields = some keys

theorem TakesFrom.isOperand_iff {c : Nat} {form : Form Nat} {keys : List String}
    (h : a.TakesFrom c form keys) {r : Ref} :
    a.isOperand r (some c) = true ↔ ∃ key ∈ keys, form.StandsIn key r :=
  isOperand_iff_standsIn h.1 h.2

/-- An operand has the node that it is an operand of as its parent. -/
theorem IsTree.parent?_of_isOperand {root : Nat} (h : a.IsTree root) {c n : Nat} {form : Form Nat}
    {keys : List String} (htakes : a.TakesFrom c form keys)
    (hn : a.isOperand (some n) (some c) = true) : a.parent? (some n) = some c := by
  obtain ⟨key, _, hstands⟩ := htakes.isOperand_iff.mp hn
  exact h.parent?_of_mem_slots htakes.1 hstands.mem_slots

/-- **Operands by position.** -/
structure OperandsByPosition (a : Arena) : Prop where
  /-- The operands of a node are its children in the operand fields. -/
  operand_iff : ∀ c form keys, a.TakesFrom c form keys → ∀ n,
    (a.isOperand (some n) (some c) = true ↔
      a.parent? (some n) = some c ∧ ∃ key ∈ keys, form.StandsIn key (some n))
  /-- A child in any other field is no operand. -/
  elsewhere : ∀ c form keys, a.TakesFrom c form keys → ∀ n key, form.StandsIn key (some n) →
    key ∉ keys → a.isOperand (some n) (some c) = false
  /-- A node is an operand of at most one node that has a rule. -/
  once : ∀ c form keys c' form' keys', a.TakesFrom c form keys → a.TakesFrom c' form' keys' →
    ∀ n, a.isOperand (some n) (some c) = true → a.isOperand (some n) (some c') = true → c = c'
  /-- Of a node without a rule, every node is an operand. -/
  passes : ∀ c form, a.form? (some c) = some form → form.kind.operandFields = none →
    ∀ r, a.isOperand r (some c) = true

end Arena

open Arena

/-- **In a loaded document, operands are told by their position.** -/
theorem ofJson_isOperand_positional {v : Json} {d : Document}
    (h : (Document.ofJson v).value = .ok d) : d.arena.OperandsByPosition := by
  have hforest := ofJson_forest h
  have htree := hforest.isTree
  refine ⟨?_, ?_, ?_, fun c form hform hkeys r => isOperand_of_operandFields_eq_none hform hkeys r⟩
  · intro c form keys htakes n
    constructor
    · intro hn
      exact ⟨htree.parent?_of_isOperand htakes hn, htakes.isOperand_iff.mp hn⟩
    · rintro ⟨_, hstands⟩
      exact htakes.isOperand_iff.mpr hstands
  · intro c form keys htakes n key hstands hkey
    -- in an operand field as well, the handle would be stored twice
    rw [Bool.eq_false_iff, ne_eq, htakes.isOperand_iff]
    rintro ⟨key', hkey', hstands'⟩
    obtain ⟨m, hm, rfl⟩ := Option.map_eq_some_iff.mp htakes.1
    rw [hstands.key_unique (hforest.nodup_children hm) hstands'] at hkey
    exact hkey hkey'
  · intro c form keys c' form' keys' htakes htakes' n hn hn'
    have hc := htree.parent?_of_isOperand htakes hn
    rw [htree.parent?_of_isOperand htakes' hn'] at hc
    exact (Option.some.inj hc).symm

/-- In `f([, x], y?.z)` the array is an operand of the call and `f` is none; `x` is an operand of
    the array. -/
theorem elisionCall_isOperand_positional :
    (Document.ofJson elisionCall).value = .ok elisionCallLoaded ∧
    elisionCallLoaded.arena.TakesFrom 7 (.call .call (some 0) [some 2, some 6]) ["arguments"] ∧
    elisionCallLoaded.arena.isOperand (some 2) (some 7) = true ∧
    elisionCallLoaded.arena.parent? (some 2) = some 7 ∧
    elisionCallLoaded.arena.isOperand (some 0) (some 7) = false ∧
    elisionCallLoaded.arena.TakesFrom 2 (.array [none, some 1]) ["elements"] ∧
    elisionCallLoaded.arena.isOperand (some 1) (some 2) = true ∧
    elisionCallLoaded.arena.isOperand (some 1) (some 5) = true := by
  have hall := ofJson_isOperand_positional ofJson_elisionCall
  have hcall : elisionCallLoaded.arena.TakesFrom 7 (.call .call (some 0) [some 2, some 6])
      ["arguments"] := ⟨rfl, rfl⟩
  have harray : elisionCallLoaded.arena.TakesFrom 2 (.array [none, some 1]) ["elements"] :=
    ⟨rfl, rfl⟩
  have hargument : elisionCallLoaded.arena.isOperand (some 2) (some 7) = true := by decide
  have hcallee := hall.elsewhere 7 _ _ hcall 0 "callee"
    ⟨[some 0], List.mem_cons_self, List.mem_cons_self⟩ (by decide)
  have helement := (hall.operand_iff 2 _ _ harray 1).mpr
    ⟨rfl, "elements", List.mem_cons_self, [none, some 1], List.mem_cons_self, by decide⟩
  exact ⟨ofJson_elisionCall, hcall, hargument, ((hall.operand_iff 7 _ _ hcall 2).mp hargument).1,
    hcallee, harray, helement, hall.passes 5 _ rfl rfl (some 1)⟩

end CallNames
