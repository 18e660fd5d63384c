import CallNames.Name.Identifier

/-!
# Qualified names

The access `a.b.c` is a chain: the base `a` and the keys `b` and `c`. Its qualified name joins the
names of base and keys by points.

* a key that is no identifier counts as an empty name, and is reported: `a[0].b` is `a..b`. Whether
  a key stands in brackets makes no difference;
* a base that is no identifier adds nothing: `f().x` is `x`;
* `Arena.shortName` is the last name alone, **with a point before it if it is a key**.
-/

namespace CallNames

/-- A chain of member accesses: what the innermost one accesses, and the keys from there on. -/
structure Chain where
  base : Ref
  keys : List Ref
deriving DecidableEq, Repr, Inhabited

namespace Arena

/-- Follows a chain inward from `r` for at most `room` accesses; `keys` are those passed, the last
    one first. -/
def chainFrom (a : Arena) : Nat → Ref → List Ref → Chain
  | 0, r, keys => ⟨r, keys⟩
  | room + 1, r, keys =>
    match a.form? r with
    | some (.member target key _) => a.chainFrom room target (key :: keys)
    | _ => ⟨r, keys⟩

/-- The chain that ends at a node. No chain without a repetition is longer than the arena. -/
def chain (a : Arena) (r : Ref) : Chain := a.chainFrom a.size r []

/-- The name of a key, empty for a key that is no identifier. -/
def keyName (a : Arena) (key : Ref) : Traced String :=
  match a.identifierName? key with
  | some name => ⟨name, []⟩
  | none => ⟨"", [.emptySegment key (a.typeName? key)]⟩

/-- The names along a chain. Keys without a name are reported from the outermost one inward. -/
def chainNames (a : Arena) (c : Chain) : Traced (List String) := do
  let names ← Traced.all (c.keys.reverse.map a.keyName)
  pure ((a.identifierName? c.base).toList ++ names.reverse)

/-- **The qualified name of a call or an access.** -/
def qualifiedName (a : Arena) (r : Ref) : Traced String := do
  let names ← a.chainNames (a.chain (a.callee r))
  pure (".".intercalate names)

/-- Whether a node is a member access. -/
def isMember (a : Arena) (r : Ref) : Bool :=
  match a.form? r with
  | some (.member _ _ _) => true
  | _ => false

/-- **The last name of a call or an access**, if it has one. -/
def shortName (a : Arena) (r : Ref) : Traced (Option String) := do
  let target := a.callee r
  let named ← a.identifier target
  pure ((a.identifierName? named).map fun name => if a.isMember target then "." ++ name else name)

end Arena

end CallNames
