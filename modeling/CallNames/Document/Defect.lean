import CallNames.Document.Path
import CallNames.Json.Numeral
import CallNames.Node.Kind

/-!
# Why a document is refused

* `Defect` says what is wrong with one value of a document, `DocumentError` adds where it is;
* `LoadError` adds what can be wrong with the text of a document;
* the wording of every refusal is in `DocumentError.message` and `LoadError.message`.
-/

namespace CallNames

/-! ## 1. Limits -/

/-- How many nodes may be nested in each other. -/
def nodeLimit : Nat := 1024

/-- How many brackets of a text may be open at once: a node in an array lies two brackets below
    its parent, and some room is left for the values of the innermost node. -/
def nestingLimit : Nat := 2 * nodeLimit + 8

/-! ## 2. Refusals -/

/-- What a field should have held. -/
inductive Expected where
  | array
  | boolean
  | string
  | declarationKind
deriving DecidableEq, Repr, Inhabited

/-- What is wrong with a value that should be a node. -/
inductive Defect where
  /-- It is no object. -/
  | notANode
  /-- It has no type name. -/
  | missingType
  /-- A field is missing that nodes of this kind need. -/
  | missingField (kind : Kind) (field : String)
  /-- A field holds a value of the wrong shape. -/
  | invalidField (kind : Kind) (field : String) (expected : Expected)
  /-- It is an identifier with the empty name. -/
  | emptyIdentifier
  /-- It lies inside too many nodes. -/
  | tooDeep
deriving DecidableEq, Repr, Inhabited

/-- A defect and the place of the value that has it. -/
structure DocumentError where
  path : Path
  defect : Defect
deriving DecidableEq, Repr, Inhabited

/-- Why a text cannot be loaded. -/
inductive LoadError where
  /-- Too many brackets are open at once. -/
  | tooNested
  /-- The text is no JSON value. -/
  | text (defect : TextDefect)
  /-- The value is no document. -/
  | document (error : DocumentError)
deriving DecidableEq, Repr, Inhabited

/-! ## 3. Wording -/

namespace Expected

/-- What should have been there, in words. -/
def phrase : Expected → String
  | array => "an array"
  | boolean => "a boolean"
  | string => "a string"
  | declarationKind => "one of var, let, const, using, await using"

end Expected

namespace DocumentError

/-- The refusal in words. -/
def message (e : DocumentError) : String :=
  let place := "`" ++ e.path.render ++ "`"
  match e.defect with
  | .notANode => "expected a node object at " ++ place
  | .missingType => "node at " ++ place ++ " has no string `type` field"
  | .missingField kind field =>
    kind.name ++ " at " ++ place ++ " is missing required field `" ++ field ++ "`"
  | .invalidField kind field expected =>
    kind.name ++ " at " ++ place ++ " has an invalid `" ++ field ++ "` field: expected " ++
      expected.phrase
  | .emptyIdentifier => "Identifier at " ++ place ++ " has an empty name"
  | .tooDeep => "node nesting exceeds " ++ Nat.repr nodeLimit ++ " levels at " ++ place

end DocumentError

namespace LoadError

/-- The refusal in words. -/
def message : LoadError → String
  | tooNested => "JSON nesting exceeds " ++ Nat.repr nestingLimit ++ " levels"
  | text _ => "invalid JSON"
  | document e => e.message

end LoadError

end CallNames
