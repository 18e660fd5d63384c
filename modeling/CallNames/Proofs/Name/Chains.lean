import CallNames.Name.Qualified
import CallNames.Proofs.Arena.Ancestry
import CallNames.Proofs.Document.Links
import Mathlib.Logic.Relation
import Mathlib.Tactic.IntervalCases

/-!
# Following a chain to its end

A chain of member accesses is followed inward, from an access to what it accesses, until something
else is reached. Where the links of an arena run in a circle there is no such end.

* `Inward` is one turn of that loop, **without any bound**. `ChainEnds` says that the turns come to
  an end and where;
* `TargetsFirst`: whatever is accessed comes before its access. In such an arena every chain ends,
  and `Arena.chain` is where (`chain_ends`): its bound on the turns cuts nothing;
* `Spells` says which names a chain spells, by recursion on what is accessed;
* `qualifiedName_spells_chain`: the qualified name joins exactly these names, and can be taken apart
  again.
-/

namespace CallNames

namespace Arena

variable {a : Arena}

/-! ## 1. The loop -/

/-- **One turn of the loop**: from an access to what it accesses, with its key passed. -/
inductive Inward (a : Arena) : Chain → Chain → Prop where
  | turn {r target key : Ref} {computed : Bool} {keys : List Ref}
      (h : a.form? r = some (.member target key computed)) :
      Inward a ⟨r, keys⟩ ⟨target, key :: keys⟩

/-- **The loop comes to an end**: after some turns no further turn is possible. -/
def ChainEnds (a : Arena) (c d : Chain) : Prop :=
  Relation.ReflTransGen a.Inward c d ∧ ∀ e, ¬ a.Inward d e

/-- **Whatever is accessed comes before its access**, as far as the arena holds it. -/
def TargetsFirst (a : Arena) : Prop :=
  ∀ i target key computed, a.form? (some i) = some (.member (some target) key computed) →
    target < a.size → target < i

theorem isMember_of_form? {r target key : Ref} {computed : Bool}
    (h : a.form? r = some (.member target key computed)) : a.isMember r = true := by
  rw [isMember, h]

theorem isMember_eq_false_iff {r : Ref} :
    a.isMember r = false ↔
      ∀ target key computed, a.form? r ≠ some (.member target key computed) := by
  constructor
  · intro h target key computed hform
    rw [isMember_of_form? hform] at h
    cases h
  · intro h
    unfold isMember
    split
    · rename_i target key computed hform
      exact absurd hform (h target key computed)
    · rfl

theorem identifierName?_eq_some_iff {r : Ref} {name : String} :
    a.identifierName? r = some name ↔ a.form? r = some (.identifier name) := by
  unfold identifierName?
  cases a.form? r with
  | none => simp
  | some form => cases form <;> simp [Form.identifierName?]

/-- A turn is possible exactly at an access. -/
theorem not_inward_iff {c : Chain} : (∀ d, ¬ a.Inward c d) ↔ a.isMember c.base = false := by
  rw [isMember_eq_false_iff]
  constructor
  · intro h target key computed hform
    exact h ⟨target, key :: c.keys⟩ (.turn hform)
  · intro h d hd
    cases hd with
    | turn hform => exact h _ _ _ hform

/-- With any bound, only turns of the loop are taken. -/
theorem reaches_chainFrom (a : Arena) (room : Nat) (r : Ref) (keys : List Ref) :
    Relation.ReflTransGen a.Inward ⟨r, keys⟩ (a.chainFrom room r keys) := by
  induction room generalizing r keys with
  | zero => exact .refl
  | succ room ih =>
    unfold chainFrom
    split
    · rename_i target key computed hform
      exact .head (.turn hform) (ih target (key :: keys))
    · exact .refl

/-- What has a form is a handle of the arena. -/
theorem lt_size_of_form? {i : Nat} {form : Form Nat} (h : a.form? (some i) = some form) :
    i < a.size := by
  obtain ⟨n, hn, _⟩ := Option.map_eq_some_iff.mp h
  exact lt_size_of_node? hn

theorem isMember_of_size_le {i : Nat} (hi : a.size ≤ i) : a.isMember (some i) = false := by
  refine isMember_eq_false_iff.mpr fun target key computed hform => ?_
  exact absurd (lt_size_of_form? hform) (Nat.not_lt.mpr hi)

/-- A bound is not used up as long as it is greater than the handle: **each turn leads to a smaller
    handle, or out of the arena**. -/
theorem isMember_chainFrom (ha : a.TargetsFirst) {room : Nat} {r : Ref} (keys : List Ref)
    (hroom : ∀ i, r = some i → i < room ∨ a.size ≤ i) :
    a.isMember (a.chainFrom room r keys).base = false := by
  induction room generalizing r keys with
  | zero =>
    cases r with
    | none => rfl
    | some i => exact isMember_of_size_le ((hroom i rfl).resolve_left (Nat.not_lt_zero i))
  | succ room ih =>
    unfold chainFrom
    split
    · rename_i target key computed hform
      refine ih (key :: keys) fun c hc => ?_
      cases r with
      | none => cases hform
      | some i =>
        subst hc
        rcases Nat.lt_or_ge c a.size with hlt | hge
        · have hci := ha i c key computed hform hlt
          have hi := (hroom i rfl).resolve_right (Nat.not_le.mpr (lt_size_of_form? hform))
          exact .inl (by omega)
        · exact .inr hge
    · rename_i hform
      exact isMember_eq_false_iff.mpr hform

/-- **Every chain ends**, within the bound. -/
theorem chain_ends (ha : a.TargetsFirst) (r : Ref) : a.ChainEnds ⟨r, []⟩ (a.chain r) := by
  refine ⟨reaches_chainFrom a a.size r [], not_inward_iff.mpr ?_⟩
  exact isMember_chainFrom ha [] fun i _ => Nat.lt_or_ge i a.size

/-! ## 2. What a chain spells -/

/-- **The names that a chain spells**: those of what is accessed and then that of the key, which is
    empty if the key is no identifier. An identifier spells its name and anything else nothing. -/
inductive Spells (a : Arena) : Ref → List String → Prop where
  | access {r target key : Ref} {computed : Bool} {names : List String}
      (h : a.form? r = some (.member target key computed)) (rest : Spells a target names) :
      Spells a r (names ++ [(a.identifierName? key).getD ""])
  | identifier {r : Ref} {name : String} (h : a.form? r = some (.identifier name)) :
      Spells a r [name]
  | other {r : Ref}
      (hmember : ∀ target key computed, a.form? r ≠ some (.member target key computed))
      (hname : ∀ name, a.form? r ≠ some (.identifier name)) : Spells a r []

/-- A chain spells one list of names at most. -/
theorem Spells.unique {r : Ref} {l l' : List String} (h : a.Spells r l) (h' : a.Spells r l') :
    l = l' := by
  induction h generalizing l' with
  | access hform _ ih =>
    cases h' with
    | access hform' rest' =>
      rw [hform] at hform'
      cases hform'
      rw [ih rest']
    | identifier hform' => simp [hform] at hform'
    | other hmember _ => exact absurd hform (hmember _ _ _)
  | identifier hform =>
    cases h' with
    | access hform' _ => simp [hform] at hform'
    | identifier hform' => simpa [hform] using hform'
    | other _ hname => exact absurd hform (hname _)
  | other hmember hname =>
    cases h' with
    | access hform _ => exact absurd hform (hmember _ _ _)
    | identifier hform => exact absurd hform (hname _)
    | other _ _ => rfl

/-- What a chain spells from where the loop stands: the names of the base and of the keys passed. -/
def SpellsFrom (a : Arena) (c : Chain) (l : List String) : Prop :=
  ∃ names, a.Spells c.base names ∧
    l = names ++ c.keys.map fun key => (a.identifierName? key).getD ""

/-- **One turn of the loop changes nothing in what the chain spells.** -/
theorem Inward.spellsFrom {c d : Chain} {l : List String} (h : a.Inward c d)
    (hd : a.SpellsFrom d l) : a.SpellsFrom c l := by
  obtain ⟨names, hnames, rfl⟩ := hd
  cases h with
  | turn hform =>
    refine ⟨_, .access hform hnames, ?_⟩
    simp

/-- So it spells where the loop started what it spells where the loop stands. -/
theorem spellsFrom_of_reaches {c d : Chain} {l : List String}
    (h : Relation.ReflTransGen a.Inward c d) (hd : a.SpellsFrom d l) : a.SpellsFrom c l := by
  induction h using Relation.ReflTransGen.head_induction_on with
  | refl => exact hd
  | head hturn _ ih => exact hturn.spellsFrom ih

/-- What is no access spells its name, if it has one. -/
theorem spells_of_not_isMember {r : Ref} (h : a.isMember r = false) :
    a.Spells r (a.identifierName? r).toList := by
  unfold identifierName?
  cases hform : a.form? r with
  | none => exact .other (by simp [hform]) (by simp [hform])
  | some form =>
    cases form with
    | identifier name => exact .identifier hform
    | member target key computed => exact absurd hform (isMember_eq_false_iff.mp h _ _ _)
    | _ => exact .other (by simp [hform]) (by simp [hform])

theorem value_keyName (key : Ref) : (a.keyName key).value = (a.identifierName? key).getD "" := by
  unfold keyName
  cases a.identifierName? key <;> rfl

/-- The names along a chain, from the base on. -/
theorem value_chainNames (c : Chain) :
    (a.chainNames c).value = (a.identifierName? c.base).toList ++
      c.keys.map fun key => (a.identifierName? key).getD "" := by
  have hkey : Traced.value ∘ a.keyName = fun key => (a.identifierName? key).getD "" :=
    funext value_keyName
  show _ ++ (Traced.all (c.keys.reverse.map a.keyName)).value.reverse = _
  rw [Traced.value_all, List.map_map, hkey, List.map_reverse, List.reverse_reverse]

/-- **The names along the chain in which the loop ends are those that its start spells.** -/
theorem ChainEnds.spells {r : Ref} {d : Chain} (h : a.ChainEnds ⟨r, []⟩ d) :
    a.Spells r (a.chainNames d).value := by
  have hend : a.SpellsFrom d (a.chainNames d).value :=
    ⟨_, spells_of_not_isMember (not_inward_iff.mp h.2), value_chainNames d⟩
  obtain ⟨names, hnames, e⟩ := spellsFrom_of_reaches h.1 hend
  simpa [e] using hnames

/-- The qualified name joins the names that the chain spells. -/
theorem qualifiedName_eq_of_spells (ha : a.TargetsFirst) {r : Ref} {names : List String}
    (h : a.Spells (a.callee r) names) : (a.qualifiedName r).value = ".".intercalate names := by
  have hchain := (chain_ends ha (a.callee r)).spells
  rw [h.unique hchain]
  rfl

/-! ## 3. Taking a name apart -/

/-- No identifier has a point in its name. -/
def NoPoints (a : Arena) : Prop :=
  ∀ r name, a.identifierName? r = some name → '.' ∉ name.toList

theorem Spells.no_points {r : Ref} {names : List String} (h : a.Spells r names)
    (hpoints : a.NoPoints) : ∀ name ∈ names, '.' ∉ name.toList := by
  induction h with
  | @access _ _ key _ names _ _ ih =>
    intro name hname
    rcases List.mem_append.mp hname with hname | hname
    · exact ih name hname
    · rw [List.mem_singleton.mp hname]
      cases hkey : a.identifierName? key with
      | none => simp
      | some s => exact hpoints key s hkey
  | @identifier r name hform => simpa using hpoints r name (identifierName?_eq_some_iff.mpr hform)
  | other => simp

/-- An arena built from the bottom up has what is accessed before its access. -/
theorem BottomUp.targetsFirst (ha : a.BottomUp) : a.TargetsFirst := by
  intro i target key computed hform hlt
  obtain ⟨n, hn, hf⟩ := Option.map_eq_some_iff.mp hform
  have hchild : target ∈ n.form.children := by
    rw [Form.mem_children, hf]
    exact List.mem_cons_self
  exact ha i n target hn hchild hlt

/-- **The qualified name spells the chain.** Where whatever is accessed comes before its access, as
    in every loaded document, the loop along the chain ends by itself; the name of any node joins
    what its chain spells by points; and unless an identifier has a point in its name, splitting it
    at the points gives the names back. -/
theorem qualifiedName_spells_chain :
    (∀ v d, (Document.ofJson v).value = .ok d → d.arena.TargetsFirst) ∧
    ∀ a : Arena, a.TargetsFirst → ∀ r,
      a.ChainEnds ⟨a.callee r, []⟩ (a.chain (a.callee r)) ∧
      ∃ names, (∀ l, a.Spells (a.callee r) l ↔ l = names) ∧
        (a.qualifiedName r).value = ".".intercalate names ∧
        (a.NoPoints → names ≠ [] →
          ((a.qualifiedName r).value.split '.').toList.map (·.copy) = names) := by
  refine ⟨fun v d h => (ofJson_forest h).isTree.bottomUp.targetsFirst, fun a ha r => ?_⟩
  have hends := chain_ends ha (a.callee r)
  have hname := qualifiedName_eq_of_spells ha hends.spells
  refine ⟨hends, _, fun l => ⟨fun h => h.unique hends.spells, ?_⟩, hname, fun hpoints hne => ?_⟩
  · rintro rfl
    exact hends.spells
  · have hsplit := String.toList_split_intercalate (hends.spells.no_points hpoints)
    rw [if_neg hne] at hsplit
    rw [hname]
    exact hsplit

/-- The call `a[0].b()`, and the access `.c` of a node that is missing. -/
def indexedCall : Arena :=
  ⟨#[{ form := .identifier "a" }, { form := .literal "0" },
    { form := .member (some 0) (some 1) true }, { form := .identifier "b" },
    { form := .member (some 2) (some 3) false }, { form := .call .call (some 4) [] },
    { form := .identifier "c" }, { form := .member (some 9) (some 6) false }]⟩

theorem targetsFirst_indexedCall : indexedCall.TargetsFirst := by
  intro i target key computed h hlt
  have hi := lt_size_of_form? h
  change i < 8 at hi
  change target < 8 at hlt
  interval_cases i <;> simp [indexedCall, form?, node?] at h <;> omega

theorem noPoints_indexedCall : indexedCall.NoPoints := by
  intro r name h
  obtain ⟨form, hform, hname⟩ := Option.bind_eq_some_iff.mp h
  cases r with
  | none => cases hform
  | some i =>
    have hi := lt_size_of_form? hform
    change i < 8 at hi
    interval_cases i <;> cases hform <;> cases hname <;> decide

theorem indexedCall_spells : indexedCall.Spells (some 4) ["a", "", "b"] := by
  have houter : indexedCall.form? (some 4) = some (.member (some 2) (some 3) false) := rfl
  have hinner : indexedCall.form? (some 2) = some (.member (some 0) (some 1) true) := rfl
  exact .access houter (.access hinner (.identifier rfl))

/-- Its name has an empty part for the index, and the access of the missing node spells its key. -/
theorem indexedCall_qualifiedName_spells :
    indexedCall.TargetsFirst ∧ indexedCall.NoPoints ∧
    (indexedCall.qualifiedName (some 5)).value = "a..b" ∧
    ("a..b".split '.').toList.map (·.copy) = ["a", "", "b"] ∧
    indexedCall.ChainEnds ⟨some 7, []⟩ ⟨some 9, [some 6]⟩ := by
  obtain ⟨_, names, hnames, hvalue, hsplit⟩ :=
    qualifiedName_spells_chain.2 indexedCall targetsFirst_indexedCall (some 5)
  obtain rfl := (hnames _).mp indexedCall_spells
  obtain ⟨hends, _⟩ := qualifiedName_spells_chain.2 indexedCall targetsFirst_indexedCall (some 7)
  have hname : (indexedCall.qualifiedName (some 5)).value = "a..b" := hvalue
  have hback := hsplit noPoints_indexedCall (List.cons_ne_nil _ _)
  rw [hname] at hback
  exact ⟨targetsFirst_indexedCall, noPoints_indexedCall, hname, hback, hends⟩

end Arena

end CallNames
