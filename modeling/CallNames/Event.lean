import CallNames.Document.Path
import CallNames.Json.Basic
import CallNames.Node.Ref

/-!
# Events

What happens on the way is reported by events: each fallback of a name resolution, each node kept
without a model, and the end of each document and file.

* `Event` names the causes;
* level, target, message and fields of the report **follow from the cause alone**.
-/

namespace CallNames

/-! ## 1. Causes -/

/-- How much an event matters, from the least to the most. -/
inductive Level where
  | trace
  | debug
  | info
  | warn
  | error
deriving DecidableEq, Repr, Inhabited

namespace Level

/-- The name of a level. -/
def name : Level → String
  | trace => "TRACE"
  | debug => "DEBUG"
  | info => "INFO"
  | warn => "WARN"
  | error => "ERROR"

end Level

/-- Something worth reporting. -/
inductive Event where
  /-- A node of a type without a model is kept, and its children with it. -/
  | keptUnmodelled (typeName : String) (path : Path)
  /-- A document has been loaded. -/
  | loaded (nodes root : Nat)
  /-- An upward walk was longer than the arena and was cut at a node. -/
  | walkCut (node : Nat)
  /-- A node does not name an identifier; `reached` is the type of the node it leads to. -/
  | noIdentifier (node : Ref) (reached : Option String)
  /-- A property in a chain is no identifier; `type` is the type of the property. -/
  | emptySegment (property : Ref) (type : Option String)
  /-- A function without a name stands where nothing names it. -/
  | noTarget (function : Nat) (parentType : String)
  /-- A file has been analyzed. -/
  | analyzed (file : String) (calls : Nat)
deriving DecidableEq, Repr, Inhabited

/-! ## 2. Reports -/

namespace Event

/-- Milestones and broken links are of level `debug`, fallbacks of level `trace`. -/
def level : Event → Level
  | keptUnmodelled _ _ => .trace
  | loaded _ _ => .debug
  | walkCut _ => .debug
  | noIdentifier _ _ => .trace
  | emptySegment _ _ => .trace
  | noTarget _ _ => .trace
  | analyzed _ _ => .debug

/-- The part of the program that reports the event. -/
def target : Event → String
  | keptUnmodelled _ _ => "jsnames_ast::estree"
  | loaded _ _ => "jsnames_ast::estree"
  | walkCut _ => "jsnames_ast::arena"
  | noIdentifier _ _ => "jsnames_resolver::identifier"
  | emptySegment _ _ => "jsnames_resolver::qualified_name"
  | noTarget _ _ => "jsnames_resolver::enclosing_function"
  | analyzed _ _ => "jsnames_cli::driver"

/-- What happened, in words. -/
def message : Event → String
  | keptUnmodelled _ _ => "keeping unmodelled node as Other"
  | loaded _ _ => "loaded ESTree document"
  | walkCut _ => "ancestor walk longer than the arena"
  | noIdentifier _ _ => "node does not resolve to an identifier"
  | emptySegment _ _ => "non-identifier property in member chain; using empty segment"
  | noTarget _ _ => "anonymous function has no assignment target"
  | analyzed _ _ => "analyzed tree"

/-- A field that is left out if its value is absent. -/
def optionalField (key : String) : Option String → Fields
  | none => []
  | some s => [(key, .str s)]

/-- The fields of an event's report with the message among them, in the order of their keys. -/
def fields (e : Event) : Fields :=
  let message : String × Json := ("message", .str e.message)
  match e with
  | keptUnmodelled typeName path =>
    [message, ("node_type", .str typeName), ("path", .str path.render)]
  | loaded nodes root => [message, ("nodes", .ofNat nodes), ("root", .str (Ref.display (some root)))]
  | walkCut node => [("at", .str (Ref.display (some node))), message]
  | noIdentifier node reached =>
    [message, ("node", .str (Ref.display node))] ++ optionalField "reached" reached
  | emptySegment property type =>
    optionalField "kind" type ++ [message, ("property", .str (Ref.display property))]
  | noTarget function parentType =>
    [("function", .str (Ref.display (some function))), message, ("parent", .str parentType)]
  | analyzed file calls => [("calls", .ofNat calls), ("file", .str file), message]

/-- The keys of the fields that the report of such an event can have, in alphabetical order: also
    of a field that is left out because its value is absent. -/
def keys : Event → List String
  | keptUnmodelled _ _ => ["message", "node_type", "path"]
  | loaded _ _ => ["message", "nodes", "root"]
  | walkCut _ => ["at", "message"]
  | noIdentifier _ _ => ["message", "node", "reached"]
  | emptySegment _ _ => ["kind", "message", "property"]
  | noTarget _ _ => ["function", "message", "parent"]
  | analyzed _ _ => ["calls", "file", "message"]

/-- The report of an event. -/
def toJson (e : Event) : Json :=
  .obj [("level", .str e.level.name), ("target", .str e.target), ("fields", .obj e.fields)]

end Event

end CallNames
