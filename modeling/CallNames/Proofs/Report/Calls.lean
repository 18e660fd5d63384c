import CallNames.Proofs.Document.Walks
import CallNames.Proofs.Name.Spelling
import CallNames.Proofs.Name.Surroundings
import CallNames.Report.Analysis

/-!
# The calls of a tree

The analysis walks through an arena by handles, upward and downward. What it reports can be said of
the tree alone.

* `Tree.calls` goes down a tree and reports its calls on the way, with the surroundings handed from
  parent to child;
* `value_callReport?`: the report of a node is that of its tree in its surroundings;
* `ofJson_calls`: **the analysis of a loaded document reports the calls of the tree that the
  document is**. So no report depends on the handles that the nodes happen to have.
-/

namespace CallNames

/-! ## 1. Reports read off a tree -/

namespace Tree

/-- The report of an argument; every argument is an operand. -/
def argumentReport (t : Tree) : ArgumentReport where
  name := nodeName (some t)
  typeName := t.form.typeName
  operand := true

/-- What a call is named by: a call by itself, a construction by its callee. -/
def namedBy (t : Tree) (callee : Option Tree) : CallStyle → Option Tree
  | .call => some t
  | .construct => callee

/-- The qualified name of what a function is named by, unless it is empty. -/
def label (o : Option Tree) : Option String :=
  o.bind fun t => if (qualifiedName (some t)).isEmpty then none else some (qualifiedName (some t))

/-- The report of a tree that is a call or a construction. -/
def callReport? (s : Surroundings) : Tree → Option CallReport
  | .node span (.call style callee arguments) => some
      { style := style
        span := span
        fullName := qualifiedName (namedBy (.node span (.call style callee arguments)) callee style)
        shortName := shortName (namedBy (.node span (.call style callee arguments)) callee style)
        enclosing := label s.function
        arguments := (arguments.filterMap id).map argumentReport }
  | _ => none

/-- **The calls of a tree**, parents before children and children in source order. -/
def calls (s : Surroundings) (t : Tree) : List CallReport :=
  (t.callReport? s).toList ++ t.form.children.attach.flatMap fun c => c.1.calls (t.inner s)
termination_by t
decreasing_by exact sizeOf_lt_of_mem_children c.2

/-- The calls of a tree are its own report and the calls of its children. -/
theorem calls_eq (s : Surroundings) (t : Tree) :
    t.calls s = (t.callReport? s).toList ++ t.form.children.flatMap (calls (t.inner s)) := by
  rw [calls, List.flatMap_subtype (g := calls (t.inner s)) (fun _ _ => rfl), List.unattach_attach]

end Tree

/-! ## 2. The same reports in the arena -/

/-- What agrees for related items gives the same list. -/
theorem map_eq_map_of_forall₂ {α β γ : Type} {R : α → β → Prop} {f : α → γ} {g : β → γ}
    {l : List α} {l' : List β} (h : List.Forall₂ R l l')
    (hfg : ∀ x ∈ l, ∀ y, R x y → f x = g y) : l.map f = l'.map g := by
  induction h with
  | nil => rfl
  | @cons x y l l' hxy _ ih =>
    rw [List.map_cons, List.map_cons, hfg x List.mem_cons_self y hxy,
      ih fun x hx => hfg x (List.mem_cons_of_mem _ hx)]

namespace Arena

variable {a : Arena} {root i : Nat} {n : Node} {t : Tree} {s : Surroundings}

theorem typeName?_eq (h : a.HasTree i t) : a.typeName? (some i) = some t.form.typeName := by
  obtain ⟨n, ts, hn, rfl, _⟩ := h.exists_node
  rw [typeName?, form?_of_node? hn]
  show some n.form.typeName = some (n.form.refill ts).typeName
  cases n.form <;> rfl

/-- An argument is an operand of its call or construction. -/
theorem isOperand_of_mem {style : CallStyle} {callee : Ref} {arguments : List Ref} {c : Nat}
    (hform : a.form? (some i) = some (.call style callee arguments)) (hc : some c ∈ arguments) :
    a.isOperand (some c) (some i) = true := by
  unfold isOperand
  rw [hform]
  cases style with
  | call => exact List.contains_iff_mem.mpr hc
  | construct => rfl

/-- The label of the enclosing function is read off what it is named by. -/
theorem value_enclosingLabel (ha : a.BottomUp) {r : Ref} {o : Option Tree}
    (h : Option.Rel a.HasTree (a.enclosingName r).value o) :
    (a.enclosingLabel r).value = Tree.label o := by
  unfold enclosingLabel
  rw [Traced.value_bind]
  cases h' : (a.enclosingName r).value with
  | none =>
    rw [h'] at h
    cases h
    rfl
  | some named =>
    rw [h'] at h
    have hname := qualifiedName_eq ha h
    cases h with
    | some ht =>
      show (if ((a.qualifiedName (some named)).value).isEmpty then none else _) = _
      rw [hname]
      rfl

/-- **The report of a node is that of its tree in its surroundings.** -/
theorem value_callReport? (htree : a.IsTree root) (hn : a.node? i = some n) (ht : a.HasTree i t)
    (hs : a.Surrounds n.parent s) :
    (a.callReport? i).map Traced.value = t.callReport? s := by
  have hform := form?_of_node? hn
  have hbelow := rel_enclosingName htree hs hn ht
  have hself := ht
  obtain ⟨n', ts, hn', rfl, hts⟩ := ht.exists_node
  rw [hn] at hn'
  cases hn'
  unfold callReport?
  rw [hn]
  obtain ⟨span, parent, form⟩ := n
  cases form with
  | call style callee arguments =>
    obtain _ | ⟨hcallee, harguments⟩ := hts
    rename_i callee' arguments'
    have hlabel := value_enclosingLabel htree.bottomUp hbelow
    have hnamed : Option.Rel a.HasTree (namedBy i callee style)
        (Tree.namedBy (.node span (.call style callee' arguments')) callee' style) := by
      cases style with
      | call => exact .some hself
      | construct => exact hcallee
    have hreports : ((arguments.filterMap id).map (a.argumentReport i)).map Traced.value =
        (arguments'.filterMap id).map Tree.argumentReport := by
      rw [List.map_map]
      refine map_eq_map_of_forall₂ (forall₂_filterMap_id harguments) fun c hc u hu => ?_
      have hmem : some c ∈ arguments := by
        obtain ⟨r, hr, e⟩ := List.mem_filterMap.mp hc
        exact e ▸ hr
      have hname := nodeName_eq (.some hu)
      have hoperand := isOperand_of_mem hform hmem
      show ArgumentReport.mk _ ((a.typeName? (some c)).getD "") _ = _
      rw [hname, hoperand, typeName?_eq hu]
      rfl
    have hfull := qualifiedName_eq htree.bottomUp hnamed
    have hshort := shortName_eq hnamed
    show some (CallReport.mk style span (a.qualifiedName (namedBy i callee style)).value
      (a.shortName (namedBy i callee style)).value (a.enclosingLabel (some i)).value
      (((arguments.filterMap id).map (a.argumentReport i)).map Traced.value)) = _
    rw [hfull, hshort, hlabel, hreports]
    rfl
  | _ => rfl

/-- **The reports along the walk below a node are the calls of its tree.** -/
theorem filterMap_parentsFirst (htree : a.IsTree root) (hn : a.node? i = some n)
    (ht : a.HasTree i t) (hs : a.Surrounds n.parent s) :
    (a.parentsFirst i).filterMap (fun j => (a.callReport? j).map Traced.value) = t.calls s := by
  induction i using Nat.strongRecOn generalizing n t s with
  | ind i ih =>
    have hreport := value_callReport? htree hn ht hs
    have hinner := hs.inner htree hn ht
    have hchildren : n.form.children.flatMap (fun c => (a.parentsFirst c).filterMap
          fun j => (a.callReport? j).map Traced.value) =
        t.form.children.flatMap (Tree.calls (t.inner s)) := by
      rw [List.flatMap_def, List.flatMap_def]
      refine congrArg List.flatten (map_eq_map_of_forall₂ (ht.forall₂_children hn) ?_)
      intro c hc u hu
      obtain ⟨m, hm, hparent⟩ := htree.parent_of_child hn hc
      have hlt := htree.bottomUp i n c hn hc (lt_size_of_node? hm)
      exact ih c hlt hm hu (by rw [hparent]; exact hinner)
    rw [parentsFirst_of_bottomUp htree.bottomUp hn, Tree.calls_eq, ← hreport, ← hchildren,
      List.filterMap_cons, List.filterMap_flatMap]
    cases a.callReport? i <;> rfl

end Arena

/-! ## 3. Documents -/

/-- The calls that are reported of a document. -/
def Document.calls (file : String) (d : Document) : List CallReport :=
  (FileReport.ofTree file d.arena (some d.root)).value.calls

/-- The calls of a report are the reports along the walk. -/
theorem FileReport.value_ofTree (file : String) (a : Arena) (r : Ref) :
    (FileReport.ofTree file a r).value =
      ⟨file, (a.preorder r).filterMap fun j => (a.callReport? j).map Traced.value⟩ := by
  show FileReport.mk file (((a.preorder r).filterMap a.callReport?).map Traced.value) = _
  rw [List.map_filterMap]

/-- **The analysis of a loaded document reports the calls of the tree that the document is.** -/
theorem ofJson_calls {v : Json} {d : Document} (h : (Document.ofJson v).value = .ok d) :
    ∃ t, v.tree? = some t ∧ ∀ file,
      (FileReport.ofTree file d.arena (some d.root)).value = ⟨file, t.calls {}⟩ := by
  obtain ⟨t, htree, hroot⟩ := ofJson_hasTree h
  have hwhole := (ofJson_forest h).isTree
  obtain ⟨n, hn, hparent⟩ := hwhole.top
  have hcalls := Arena.filterMap_parentsFirst hwhole hn hroot (s := {})
    (by rw [hparent]; exact d.arena.surrounds_none)
  refine ⟨t, htree, fun file => ?_⟩
  rw [FileReport.value_ofTree, Arena.preorder_eq_parentsFirst hwhole.bottomUp, hcalls]

end CallNames
