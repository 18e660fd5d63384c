/-!
# References to nodes

A node is known by its handle, its place among the nodes of an arena. Where a node may be absent,
a reference stands for it: a handle or nothing. Wherever references are written as numbers, **one
number is set aside for the absent node**.
-/

namespace CallNames

/-- A reference to a node: its handle, or `none` for an absent node. -/
abbrev Ref := Option Nat

namespace Ref

/-- The number that stands for an absent node wherever handles are written. -/
def absent : Nat := 4294967295

/-- A reference as a number. -/
def toNat (r : Ref) : Nat := r.getD absent

/-- The reference of a number. -/
def ofNat (n : Nat) : Ref := if n = absent then none else some n

/-- A reference as it is shown in events. -/
def display (r : Ref) : String := "NodeIndex(" ++ Nat.repr r.toNat ++ ")"

end Ref

end CallNames
