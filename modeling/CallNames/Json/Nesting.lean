import CallNames.Json.Basic

/-!
# How deeply a text nests its brackets

Before a text is read, its brackets are counted: text that nests too deeply is refused without
being read. The count looks at brackets outside quoted text only and asks nothing else of the
text, which need not be well formed.
-/

namespace CallNames

/-- What the count knows after some characters: how many brackets are open, and whether it stands
    inside quoted text or just after a backslash there. -/
structure BracketCount where
  depth : Nat := 0
  quoted : Bool := false
  escaped : Bool := false
deriving DecidableEq, Repr, Inhabited

namespace BracketCount

/-- One more character. A closing bracket too many is ignored. -/
def next (b : BracketCount) (c : Char) : BracketCount :=
  if b.quoted then
    if b.escaped then { b with escaped := false }
    else if c = '\\' then { b with escaped := true }
    else if c = '"' then { b with quoted := false }
    else b
  else if c = '"' then { b with quoted := true }
  else if c = '{' ∨ c = '[' then { b with depth := b.depth + 1 }
  else if c = '}' ∨ c = ']' then { b with depth := b.depth - 1 }
  else b

/-- Whether more than `limit` brackets are open at once, now or after some of `text`. -/
def exceeds (limit : Nat) : BracketCount → List Char → Bool
  | b, [] => limit < b.depth
  | b, c :: text => limit < b.depth || exceeds limit (b.next c) text

end BracketCount

/-- **Whether a text opens more than `limit` brackets at once.** -/
def nestsDeeper (limit : Nat) (text : List Char) : Bool :=
  BracketCount.exceeds limit {} text

end CallNames
