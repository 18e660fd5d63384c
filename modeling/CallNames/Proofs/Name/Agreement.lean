import CallNames.Proofs.Name.Chains

/-!
# The names of a node fit together

A node has up to four names: the identifier that it names, the name that it has as an argument, its
qualified name and the last part of that. They are found in four ways: a call is passed over once or
twice, brackets make a difference or none, a chain is followed by one step or to its end.

* `identifier_cases`, `value_nodeName` and `value_shortName` say what three of them read: **the part
  that names the target**, where the target is the node or what it calls;
* `qualifiedName_of_key`, `qualifiedName_of_base` and `qualifiedName_of_not_isMember` find the same
  part in the qualified name;
* `NamesAgree` is how the four names fit together;
* `names_agree`: so they do, for every node, unless the target is a call once more.
-/

namespace CallNames

namespace Arena

variable {a : Arena} {r : Ref}

/-! ## 1. What each name reads -/

/-- There is an identifier, which is the part that names the target, or that part has no name. -/
theorem identifier_cases (a : Arena) (r : Ref) :
    (∃ i name, (a.identifier r).value = some i ∧ a.identifierName? (some i) = some name ∧
      a.namingPart (a.callee r) = some i) ∨
    ((a.identifier r).value = none ∧ a.identifierName? (a.namingPart (a.callee r)) = none) := by
  rw [value_identifier]
  cases hpart : a.namingPart (a.callee r) with
  | none => exact .inr ⟨rfl, rfl⟩
  | some i =>
    cases hname : a.identifierName? (some i) with
    | none => exact .inr ⟨rfl, rfl⟩
    | some name => exact .inl ⟨i, name, rfl, hname, rfl⟩

/-- The node `this` names no identifier. -/
theorem value_identifier_of_this (h : a.form? r = some .this) : (a.identifier r).value = none := by
  have hcallee : a.callee r = r := by rw [callee, h]
  have hpart : a.namingPart r = r := by rw [namingPart, h]
  rw [value_identifier, hcallee, hpart, identifierName?, h]
  rfl

theorem value_nodeName (a : Arena) (r : Ref) :
    (a.nodeName r).value =
      if a.form? r = some .this then "this"
      else (a.identifierName? (a.namingPart (a.callee r))).getD "" := by
  unfold nodeName
  split
  · rename_i h
    rw [if_pos h]
  · rename_i h
    rw [if_neg h, ← identifierName?_value_identifier]
    rfl

/-- What is no call is not passed over. -/
theorem callee_of_not_call
    (h : ∀ callee arguments, a.form? r ≠ some (.call .call callee arguments)) : a.callee r = r := by
  unfold callee
  split
  · rename_i callee arguments hform
    exact absurd hform (h callee arguments)
  · rfl

/-- **The last name is that of the part that names the target**, since a target that is no call is
    not passed over again. -/
theorem value_shortName
    (h : ∀ callee arguments, a.form? (a.callee r) ≠ some (.call .call callee arguments)) :
    (a.shortName r).value = (a.identifierName? (a.namingPart (a.callee r))).map fun name =>
      if a.isMember (a.callee r) then "." ++ name else name := by
  show (a.identifierName? (a.identifier (a.callee r)).value).map _ = _
  rw [identifierName?_value_identifier, callee_of_not_call h]

/-! ## 2. Accesses and all else -/

theorem namingPart_of_member {target key : Ref} {computed : Bool}
    (h : a.form? r = some (.member target key computed)) :
    a.namingPart r = if computed then target else key := by
  rw [namingPart, h]

theorem namingPart_of_not_isMember (h : a.isMember r = false) : a.namingPart r = r := by
  unfold namingPart
  split
  · rename_i hform
    rw [isMember_of_form? hform] at h
    cases h
  · rfl

/-- **The qualified name of an access is its key or ends in it**, behind a point. -/
theorem qualifiedName_of_key (ha : a.TargetsFirst) {target key : Ref} {computed : Bool} {p : String}
    (hform : a.form? (a.callee r) = some (.member target key computed))
    (hkey : a.identifierName? key = some p) :
    (a.qualifiedName r).value = p ∨ ∃ before, (a.qualifiedName r).value = before ++ ("." ++ p) := by
  obtain ⟨names, hnames⟩ : ∃ names, a.Spells target names := ⟨_, (chain_ends ha target).spells⟩
  have hspells := Spells.access hform hnames
  rw [hkey, Option.getD_some] at hspells
  rw [qualifiedName_eq_of_spells ha hspells]
  cases names with
  | nil => exact .inl String.intercalate_singleton
  | cons first names =>
    refine .inr ⟨".".intercalate (first :: names), ?_⟩
    rw [String.intercalate_append_of_ne_nil (List.cons_ne_nil _ _) (List.cons_ne_nil _ _),
      String.intercalate_singleton, String.append_assoc]

/-- **The qualified name of an access to an identifier starts with it**, before a point. -/
theorem qualifiedName_of_base (ha : a.TargetsFirst) {target key : Ref} {computed : Bool}
    {o : String} (hform : a.form? (a.callee r) = some (.member target key computed))
    (htarget : a.identifierName? target = some o) :
    ∃ behind, (a.qualifiedName r).value = (o ++ ".") ++ behind := by
  have hspells := Spells.access hform (.identifier (identifierName?_eq_some_iff.mp htarget))
  refine ⟨(a.identifierName? key).getD "", ?_⟩
  rw [qualifiedName_eq_of_spells ha hspells, List.singleton_append, String.intercalate_cons_cons,
    String.intercalate_singleton]

/-- What is no access is called by its name, if it has one. -/
theorem qualifiedName_of_not_isMember (ha : a.TargetsFirst)
    (hmember : a.isMember (a.callee r) = false) :
    (a.qualifiedName r).value = (a.identifierName? (a.callee r)).getD "" := by
  rw [qualifiedName_eq_of_spells ha (spells_of_not_isMember hmember)]
  cases a.identifierName? (a.callee r) <;> simp

/-! ## 3. Agreement -/

/-- **How the names of a node fit together.** -/
structure NamesAgree (a : Arena) (r : Ref) : Prop where
  /-- There is a last name exactly if there is an identifier. -/
  together : (∃ name, (a.shortName r).value = some name) ↔ ∃ i, (a.identifier r).value = some i
  /-- The last name is the name of the identifier, with a point before it exactly if the target is
      an access, and as an argument the node has that name too. -/
  same : ∀ i, (a.identifier r).value = some i → ∃ name, a.identifierName? (some i) = some name ∧
    (a.shortName r).value = some (if a.isMember (a.callee r) then "." ++ name else name) ∧
    (a.nodeName r).value = name
  /-- Without an identifier, only `this` has a name as an argument. -/
  unnamed : (a.identifier r).value = none →
    (a.nodeName r).value = if a.form? r = some .this then "this" else ""
  /-- The qualified name of an identifier is its last name. -/
  plain : ∀ name, a.form? (a.callee r) = some (.identifier name) →
    (a.shortName r).value = some (a.qualifiedName r).value
  /-- The qualified name of an access by a point is its key or ends in it. -/
  dotted : ∀ target key p, a.form? (a.callee r) = some (.member target key false) →
    (a.shortName r).value = some ("." ++ p) →
    (a.qualifiedName r).value = p ∨ ∃ before, (a.qualifiedName r).value = before ++ ("." ++ p)
  /-- The qualified name of an access by brackets starts with what is accessed. -/
  indexed : ∀ target key o, a.form? (a.callee r) = some (.member target key true) →
    (a.shortName r).value = some ("." ++ o) →
    ∃ behind, (a.qualifiedName r).value = (o ++ ".") ++ behind
  /-- Anything else has neither. -/
  nameless : (∀ name, a.form? (a.callee r) ≠ some (.identifier name)) →
    a.isMember (a.callee r) = false →
    (a.shortName r).value = none ∧ (a.qualifiedName r).value = ""

section Target

variable (h : ∀ callee arguments, a.form? (a.callee r) ≠ some (.call .call callee arguments))

include h

/-- The last name of an access is the name of the part that names it. -/
theorem identifierName?_of_shortName {target key : Ref} {computed : Bool} {p : String}
    (hform : a.form? (a.callee r) = some (.member target key computed))
    (hshort : (a.shortName r).value = some ("." ++ p)) :
    a.identifierName? (if computed then target else key) = some p := by
  rw [value_shortName h, namingPart_of_member hform, isMember_of_form? hform] at hshort
  obtain ⟨name, hname, e⟩ := Option.map_eq_some_iff.mp hshort
  rw [if_pos rfl] at e
  have hp : name = p := by simpa using e
  rw [hname, hp]

theorem shortName_of_not_isMember (hmember : a.isMember (a.callee r) = false) :
    (a.shortName r).value = a.identifierName? (a.callee r) := by
  rw [value_shortName h, namingPart_of_not_isMember hmember, hmember]
  simp

end Target

/-- **The names of a node fit together**, unless what it calls is a call once more. -/
theorem names_agree {a : Arena} (ha : a.TargetsFirst) {r : Ref}
    (h : ∀ callee arguments, a.form? (a.callee r) ≠ some (.call .call callee arguments)) :
    a.NamesAgree r where
  together := by
    rw [value_shortName h]
    rcases identifier_cases a r with ⟨i, name, hi, hname, hpart⟩ | ⟨hi, hpart⟩
    · simp [hi, hpart, hname]
    · simp [hi, hpart]
  same := by
    intro i hi
    have hthis : a.form? r ≠ some .this := by
      intro hform
      rw [value_identifier_of_this hform] at hi
      cases hi
    rcases identifier_cases a r with ⟨j, name, hj, hname, hpart⟩ | ⟨hnone, _⟩
    · cases hi.symm.trans hj
      refine ⟨name, hname, ?_, ?_⟩
      · simp [value_shortName h, hpart, hname]
      · simp [value_nodeName, hthis, hpart, hname]
    · cases hi.symm.trans hnone
  unnamed := by
    intro hi
    rcases identifier_cases a r with ⟨i, _, hsome, _⟩ | ⟨_, hpart⟩
    · cases hi.symm.trans hsome
    · rw [value_nodeName, hpart]
      rfl
  plain := by
    intro name hform
    have hmember : a.isMember (a.callee r) = false := by rw [isMember, hform]
    rw [shortName_of_not_isMember h hmember, qualifiedName_of_not_isMember ha hmember,
      identifierName?_eq_some_iff.mpr hform]
    rfl
  dotted := by
    intro target key p hform hshort
    exact qualifiedName_of_key ha hform (identifierName?_of_shortName h hform hshort)
  indexed := by
    intro target key o hform hshort
    exact qualifiedName_of_base ha hform (identifierName?_of_shortName h hform hshort)
  nameless := by
    intro hname hmember
    have hnone : a.identifierName? (a.callee r) = none :=
      Option.eq_none_iff_forall_ne_some.mpr fun name he =>
        hname name (identifierName?_eq_some_iff.mp he)
    rw [shortName_of_not_isMember h hmember, qualifiedName_of_not_isMember ha hmember, hnone]
    exact ⟨rfl, rfl⟩

/-- The call `a[0].b()` is named by its last key, and the access `a[0]` in it by its base. -/
theorem indexedCall_names_agree :
    indexedCall.TargetsFirst ∧
    (∀ callee arguments,
      indexedCall.form? (indexedCall.callee (some 5)) ≠ some (.call .call callee arguments)) ∧
    indexedCall.NamesAgree (some 5) ∧
    (indexedCall.shortName (some 5)).value = some ".b" ∧
    (indexedCall.qualifiedName (some 5)).value = "a." ++ ".b" ∧
    indexedCall.NamesAgree (some 2) ∧
    (indexedCall.shortName (some 2)).value = some ".a" ∧
    (indexedCall.qualifiedName (some 2)).value = "a." := by
  have hcall : ∀ callee arguments,
      indexedCall.form? (indexedCall.callee (some 5)) ≠ some (.call .call callee arguments) := by
    intro callee arguments e
    cases e
  have haccess : ∀ callee arguments,
      indexedCall.form? (indexedCall.callee (some 2)) ≠ some (.call .call callee arguments) := by
    intro callee arguments e
    cases e
  exact ⟨targetsFirst_indexedCall, hcall, names_agree targetsFirst_indexedCall hcall, by decide,
    by decide, names_agree targetsFirst_indexedCall haccess, by decide, by decide⟩

end Arena

end CallNames
