import CallNames.Proofs.Document.Denotation
import CallNames.Proofs.Name.Chains

/-!
# Names read off a tree

What a node is called depends on the tree below it and on nothing else: not on its handle, nor on
what the rest of the arena holds.

* `Tree.nodeName`, `Tree.qualifiedName` and `Tree.shortName` say the names of a tree, without any
  handle and without a bound on the length of a chain;
* `nodeName_eq`, `qualifiedName_eq` and `shortName_eq`: **the arena gives a node the names of its
  tree**. An absent node goes with an absent tree.
-/

namespace CallNames

/-! ## 1. The names of a tree -/

namespace Tree

/-- The name of a tree that is an identifier. -/
def identifierName? : Option Tree → Option String
  | some (.node _ (.identifier name)) => some name
  | _ => none

/-- What a call calls; any other tree is left as it is. -/
def callee : Option Tree → Option Tree
  | some (.node _ (.call .call callee _)) => callee
  | o => o

/-- The part of a member access that names it; any other tree is left as it is. -/
def namingPart : Option Tree → Option Tree
  | some (.node _ (.member target key computed)) => if computed then target else key
  | o => o

/-- The name of the identifier that a tree names most directly. -/
def directName? (o : Option Tree) : Option String := identifierName? (namingPart (callee o))

/-- The name of a tree as an argument; empty if it has none. -/
def nodeName : Option Tree → String
  | some (.node _ .this) => "this"
  | o => (directName? o).getD ""

/-- **The names along a chain of member accesses**: those of the base, if it is an identifier, and
    of each key, empty for a key that is no identifier. -/
def chain : Option Tree → List String
  | some (.node _ (.member target key _)) => chain target ++ [(identifierName? key).getD ""]
  | some (.node _ (.identifier name)) => [name]
  | _ => []

theorem chain_member (span : Span) (target key : Option Tree) (computed : Bool) :
    chain (some (.node span (.member target key computed))) =
      chain target ++ [(identifierName? key).getD ""] := by
  rw [chain]

/-- Whether a tree is a member access. -/
def isMember : Option Tree → Bool
  | some (.node _ (.member _ _ _)) => true
  | _ => false

/-- A chain without an access is its base. -/
theorem chain_of_not_isMember {o : Option Tree} (h : isMember o = false) :
    chain o = (identifierName? o).toList := by
  cases o with
  | none => rw [chain, identifierName?] <;> simp
  | some t =>
    obtain ⟨span, form⟩ := t
    cases form with
    | member => cases h
    | identifier name => rw [chain]; rfl
    | _ => rw [chain, identifierName?] <;> simp

/-- The qualified name of a call or an access. -/
def qualifiedName (o : Option Tree) : String := ".".intercalate (chain (callee o))

/-- The last name of a call or an access. -/
def shortName (o : Option Tree) : Option String :=
  (directName? (callee o)).map fun name => if isMember (callee o) then "." ++ name else name

end Tree

/-! ## 2. The same names in the arena -/

namespace Arena

variable {a : Arena} {r : Ref} {o : Option Tree}

theorem identifierName?_eq (h : Option.Rel a.HasTree r o) :
    a.identifierName? r = Tree.identifierName? o := by
  cases h with
  | none => rfl
  | some h =>
    obtain ⟨n, ts, hn, rfl, _⟩ := h.exists_node
    rw [identifierName?, form?_of_node? hn]
    cases n.form <;> rfl

theorem isMember_eq (h : Option.Rel a.HasTree r o) : a.isMember r = Tree.isMember o := by
  cases h with
  | none => rfl
  | some h =>
    obtain ⟨n, ts, hn, rfl, _⟩ := h.exists_node
    rw [isMember, form?_of_node? hn]
    cases n.form <;> rfl

/-- A call and its tree call the same. -/
theorem callee_rel (h : Option.Rel a.HasTree r o) :
    Option.Rel a.HasTree (a.callee r) (Tree.callee o) := by
  cases h with
  | none => exact .none
  | some h =>
    obtain ⟨n, ts, hn, rfl, hts⟩ := h.exists_node
    rw [callee, form?_of_node? hn]
    cases hf : n.form with
    | call style callee arguments =>
      rw [hf] at h hts
      cases style with
      | call =>
        obtain _ | ⟨hcallee, _⟩ := hts
        exact hcallee
      | construct => exact .some h
    | _ =>
      rw [hf] at h
      exact .some h

/-- A member access and its tree are named by the same part. -/
theorem namingPart_rel (h : Option.Rel a.HasTree r o) :
    Option.Rel a.HasTree (a.namingPart r) (Tree.namingPart o) := by
  cases h with
  | none => exact .none
  | some h =>
    obtain ⟨n, ts, hn, rfl, hts⟩ := h.exists_node
    rw [namingPart, form?_of_node? hn]
    cases hf : n.form with
    | member target key computed =>
      rw [hf] at hts
      obtain _ | ⟨htarget, _ | ⟨hkey, ⟨⟩⟩⟩ := hts
      cases computed with
      | true => exact htarget
      | false => exact hkey
    | _ =>
      rw [hf] at h
      exact .some h

/-- The identifier that a node names is the one that its tree names. -/
theorem identifierName?_identifier (h : Option.Rel a.HasTree r o) :
    a.identifierName? (a.identifier r).value = Tree.directName? o := by
  rw [identifierName?_value_identifier]
  exact identifierName?_eq (namingPart_rel (callee_rel h))

/-- **A node is named as its tree.** -/
theorem nodeName_eq (h : Option.Rel a.HasTree r o) : (a.nodeName r).value = Tree.nodeName o := by
  have hname := identifierName?_identifier h
  cases h with
  | none => rfl
  | some h =>
    obtain ⟨n, ts, hn, rfl, _⟩ := h.exists_node
    rw [nodeName, form?_of_node? hn]
    cases hf : n.form with
    | this => rfl
    | _ =>
      rw [hf] at hname
      show (a.identifierName? (a.identifier _).value).getD "" = _
      rw [hname]
      rfl

/-- What is no access spells in the arena what it spells in its tree. -/
theorem spells_base (h : Option.Rel a.HasTree r o) (hmember : Tree.isMember o = false) :
    a.Spells r (Tree.chain o) := by
  rw [Tree.chain_of_not_isMember hmember, ← identifierName?_eq h]
  exact spells_of_not_isMember ((isMember_eq h).trans hmember)

/-- **A chain spells in the arena what it spells in its tree.** -/
theorem spells_chain (h : Option.Rel a.HasTree r o) : a.Spells r (Tree.chain o) := by
  induction o using Tree.chain.induct generalizing r with
  | case1 span target key computed ih =>
    cases h with
    | some h =>
      obtain ⟨n, ts, hn, e, hts⟩ := h.exists_node
      have hform := form?_of_node? hn
      cases hf : n.form with
      | member target' key' computed' =>
        rw [hf] at e hts hform
        obtain _ | ⟨htarget, _ | ⟨hkey, ⟨⟩⟩⟩ := hts
        cases e
        have hspells := Spells.access hform (ih htarget)
        rw [identifierName?_eq hkey] at hspells
        rw [Tree.chain_member]
        exact hspells
      | _ =>
        rw [hf] at e
        cases e
  | case2 span name => exact spells_base h rfl
  | case3 o hmember hname =>
    refine spells_base h ?_
    unfold Tree.isMember
    split
    · exact absurd rfl (hmember _ _ _ _)
    · rfl

/-- **The qualified name of a node is that of its tree.** -/
theorem qualifiedName_eq (ha : a.BottomUp) (h : Option.Rel a.HasTree r o) :
    (a.qualifiedName r).value = Tree.qualifiedName o :=
  qualifiedName_eq_of_spells ha.targetsFirst (spells_chain (callee_rel h))

/-- **The last name of a node is that of its tree.** -/
theorem shortName_eq (h : Option.Rel a.HasTree r o) : (a.shortName r).value = Tree.shortName o := by
  have hcallee := callee_rel h
  have hname := identifierName?_identifier hcallee
  have hmember := isMember_eq hcallee
  show (a.identifierName? (a.identifier (a.callee r)).value).map _ = _
  rw [hname, hmember]
  rfl

end Arena

end CallNames
