import CallNames.Proofs.Arena.Forest
import CallNames.Proofs.Document.Run

/-!
# The links of a loaded document

Loading keeps a forest: each node that is loaded becomes one more root, and the node that they are
children of takes the place of its children. At the end one tree is left.

* `loadNode_forest` is what the loading of one node does to a forest;
* `ofJson_isTree`: **a loaded document is one tree whose links go both ways**.
-/

namespace CallNames

open Arena

/-- **A loaded node is one more root.** -/
theorem loadNode_forest {room : Nat} {v : Json} {s t : LoadState} {i : Nat}
    (h : loadNode room v s = .ok i t) :
    ∀ roots, Forest s.arena roots → Forest t.arena (roots ++ [i]) := by
  refine loadNode_induction
    (P := fun _ a i b => ∀ roots, Forest a roots → Forest b (roots ++ [i]))
    (Q := fun _ a rs b => ∀ roots, Forest a roots → Forest b (roots ++ rs.filterMap id))
    ?_ ?_ ?_ ?_ h
  · intro a roots ha
    rw [List.filterMap_nil, List.append_nil]
    exact ha
  · intro ds a rs b hrest roots ha
    exact hrest roots ha
  · intro step v ds a b c i rs hfirst hrest roots ha
    have hc := hrest (roots ++ [i]) (hfirst roots ha)
    rw [List.append_assoc] at hc
    exact hc
  · intro v src a rs b _ hmet hrun roots ha
    have hb := hrun roots ha
    rw [← Form.children_refill (Source.length_of_met hmet)] at hb
    exact Forest.add (n := src.nodeOf rs) hb rfl

/-- The arena of a loaded document is a forest with one root. -/
theorem ofJson_forest {v : Json} {d : Document} (h : (Document.ofJson v).value = .ok d) :
    Forest d.arena [d.root] := by
  obtain ⟨t, ht, ha⟩ := Document.ofJson_eq_ok_iff.mp h
  rw [ha]
  exact loadNode_forest ht [] forest_empty

/-- **A loaded document is one tree**: its root is the last node and has no parent, a child comes
    before its parent and knows it, and every other handle stands in exactly one slot of the arena,
    so that no node is left over, shared, missing or above itself. -/
theorem ofJson_isTree {v : Json} {d : Document} (h : (Document.ofJson v).value = .ok d) :
    d.arena.IsTree d.root :=
  (ofJson_forest h).isTree

/-- The document of `f([, x], y?.z)`: a call with a hole in an array and a node without a model. -/
def elisionCall : Json :=
  .obj [("type", .str "CallExpression"),
    ("callee", .obj [("type", .str "Identifier"), ("name", .str "f")]),
    ("arguments", .arr
      [.obj [("type", .str "ArrayExpression"),
        ("elements", .arr [.null, .obj [("type", .str "Identifier"), ("name", .str "x")]])],
       .obj [("type", .str "ChainExpression"), ("start", .ofNat 8), ("end", .ofNat 12),
        ("expression", .obj [("type", .str "MemberExpression"),
          ("object", .obj [("type", .str "Identifier"), ("name", .str "y")]),
          ("property", .obj [("type", .str "Identifier"), ("name", .str "z")])])]])]

/-- What is loaded from it. -/
def elisionCallLoaded : Document where
  arena := ⟨#[{ parent := some 7, form := .identifier "f" },
    { parent := some 2, form := .identifier "x" },
    { parent := some 7, form := .array [none, some 1] },
    { parent := some 5, form := .identifier "y" },
    { parent := some 5, form := .identifier "z" },
    { parent := some 6, form := .member (some 3) (some 4) false },
    { span := ⟨8, 12⟩, parent := some 7, form := .other "ChainExpression" [some 5] },
    { form := .call .call (some 0) [some 2, some 6] }]⟩
  root := 7

theorem ofJson_elisionCall : (Document.ofJson elisionCall).value = .ok elisionCallLoaded := by
  decide +kernel

theorem elisionCall_isTree :
    (Document.ofJson elisionCall).value = .ok elisionCallLoaded ∧
      elisionCallLoaded.arena.IsTree 7 :=
  ⟨ofJson_elisionCall, ofJson_isTree ofJson_elisionCall⟩

end CallNames
