import CallNames.Arena.Basic
import CallNames.Document.Defect
import CallNames.Json.Nesting
import CallNames.Json.Reader
import CallNames.Json.Writer
import CallNames.Traced

/-!
# Loading a document

A document is loaded from the bottom up: the children of a node are added to the arena before it,
in the order of its slots, so that **every node has a greater handle than its children**.

* `Load` is what loading does: it adds nodes, keeps the path to where it is, collects events, and
  stops at the first defect;
* `readForm` reads the form of a node of each kind, field by field in a fixed order, which decides
  which of two defects is found first;
* `loadNode` loads one node with all below it;
* `Document.ofJson` and `Document.ofText` load a whole document.
-/

namespace CallNames

/-! ## 1. The loading state -/

/-- A loaded document: its nodes and the handle of the root. -/
structure Document where
  arena : Arena
  root : Nat
deriving DecidableEq, Repr, Inhabited

/-- Where loading stands: the nodes so far, the steps to the value being loaded with the last one
    first, and the events so far. -/
structure LoadState where
  arena : Arena := {}
  path : List Step := []
  events : Array Event := #[]
deriving Repr, Inhabited

/-- Loading: a state is changed, also where it ends in a refusal. -/
abbrev Load := EStateM DocumentError LoadState

namespace Load

variable {α : Type}

/-- Refuses the value being loaded. -/
def refuse (d : Defect) : Load α := fun s => .error ⟨s.path.reverse, d⟩ s

/-- Reports an event. -/
def emit (e : Event) : Load Unit := fun s => .ok () { s with events := s.events.push e }

/-- Adds a node. -/
def store (n : Node) : Load Nat := fun s =>
  let (i, arena) := s.arena.add n
  .ok i { s with arena := arena }

/-- The path to the value being loaded. -/
def here : Load Path := fun s => .ok s.path.reverse s

/-- Takes a step, loads there, and steps back, whether loading there succeeds or not. -/
def within (step : Step) (act : Load α) : Load α := fun s =>
  match act { s with path := step :: s.path } with
  | .ok a t => .ok a { t with path := t.path.tail }
  | .error e t => .error e { t with path := t.path.tail }

end Load

/-! ## 2. What a node is read from -/

/-- An object with a type name, to be read as a node. -/
structure Source where
  typeName : String
  fields : Fields
deriving Repr, Inhabited

namespace Source

/-- The kind of node that the object stands for. -/
def kind (src : Source) : Kind := .ofName src.typeName

/-- The value of a field. -/
def field? (src : Source) (key : String) : Option Json := src.fields.lookup key

end Source

/-- A source offset: an integer below `2 ^ 32`. -/
def offset? (v : Json) : Option Nat :=
  v.nat?.bind fun n => if n < 0x100000000 then some n else none

/-- A pair of source offsets. -/
def span? (pos stop : Json) : Option Span :=
  match offset? pos, offset? stop with
  | some pos, some stop => some ⟨pos, stop⟩
  | _, _ => none

namespace Source

/-- The offsets of a node: `start` and `end` if both are offsets, else the two entries of `range`,
    else unknown. -/
def span (src : Source) : Span :=
  let named :=
    match src.field? "start", src.field? "end" with
    | some pos, some stop => span? pos stop
    | _, _ => none
  let ranged :=
    match src.field? "range" with
    | some (.arr [pos, stop]) => span? pos stop
    | _ => none
  (named.or ranged).getD {}

/-- The text of a literal: its `raw` text, else its value as compact JSON text. -/
def literalText (src : Source) : String :=
  match src.field? "raw" with
  | some (.str raw) => raw
  | _ =>
    match src.field? "value" with
    | some v => v.compactText
    | none => ""

end Source

/-- Whether a value looks like a node: an object with a type name. -/
def isNode (v : Json) : Bool :=
  match v.field? "type" with
  | some (.str _) => true
  | _ => false

/-- The children that one field of an unmodelled node holds: its value, or entries of its array. -/
def childSites (field : String × Json) : List (Step × Json) :=
  match field.2 with
  | .arr items =>
    (items.zipIdx.filter fun entry => isNode entry.1).map fun entry =>
      (⟨field.1, some entry.2⟩, entry.1)
  | v => if isNode v then [(⟨field.1, none⟩, v)] else []

/-! ## 3. Fields -/

namespace Source

variable (src : Source) (load : Json → Load Nat)

/-- A child that must be there. -/
def required (key : String) : Load Ref :=
  match src.field? key with
  | none | some .null => Load.refuse (.missingField src.kind key)
  | some v => Load.within ⟨key, none⟩ (some <$> load v)

/-- A child that may be missing or `null`. -/
def optional (key : String) : Load Ref :=
  match src.field? key with
  | none | some .null => pure none
  | some v => Load.within ⟨key, none⟩ (some <$> load v)

/-- One entry of a list of children; `null` stands for a hole where holes may be. -/
def entry (holes : Bool) (v : Json) : Load Ref :=
  match v with
  | .null => if holes then pure none else Load.refuse .notANode
  | v => some <$> load v

/-- The entries of a list of children. -/
def entries (holes : Bool) (key : String) (items : List Json) : Load (List Ref) :=
  items.zipIdx.mapM fun item => Load.within ⟨key, some item.2⟩ (entry load holes item.1)

/-- A list of children that must be there. -/
def list (holes : Bool) (key : String) : Load (List Ref) :=
  match src.field? key with
  | none => Load.refuse (.missingField src.kind key)
  | some (.arr items) => entries load holes key items
  | some _ => Load.refuse (.invalidField src.kind key .array)

/-- A list of children that is empty if it is missing. -/
def optionalList (key : String) : Load (List Ref) :=
  match src.field? key with
  | none => pure []
  | some _ => src.list load false key

/-- A truth value that is false if it is missing. -/
def flag (key : String) : Load Bool :=
  match src.field? key with
  | none => pure false
  | some (.bool b) => pure b
  | some _ => Load.refuse (.invalidField src.kind key .boolean)

/-- A text that must be there. -/
def text (key : String) : Load String :=
  match src.field? key with
  | none => Load.refuse (.missingField src.kind key)
  | some (.str s) => pure s
  | some _ => Load.refuse (.invalidField src.kind key .string)

/-- The operator of an assignment; a plain assignment if it is missing. -/
def operator : Load String :=
  match src.field? "operator" with
  | none => pure "="
  | some _ => src.text "operator"

/-- The keyword of a declaration; `var` if it is missing. -/
def declarationKind : Load DeclarationKind :=
  match src.field? "kind" with
  | none => pure .varDecl
  | some v =>
    match v.text?.bind DeclarationKind.ofKeyword? with
    | some kind => pure kind
    | none => Load.refuse (.invalidField src.kind "kind" .declarationKind)

/-- The name of an identifier. -/
def identifierName : Load String := do
  let name ← src.text "name"
  if name.isEmpty then Load.refuse .emptyIdentifier else pure name

/-- The children of an unmodelled node, in the order of its fields. -/
def allChildren : Load (List Ref) :=
  (src.fields.flatMap childSites).mapM fun site => Load.within site.1 (some <$> load site.2)

/-! ## 4. Nodes -/

/-- A call or a construction. -/
def call (style : CallStyle) : Load (Form Nat) := do
  let callee ← src.required load "callee"
  let arguments ← src.optionalList load "arguments"
  pure (.call style callee arguments)

/-- A function in any spelling. -/
def function (style : FunctionStyle) : Load (Form Nat) := do
  let id ← src.optional load "id"
  let params ← src.list load false "params"
  let body ← src.required load "body"
  pure (.function style id params body)

/-- **Reads the form of a node**, its children in the order of its slots. -/
def readForm : Load (Form Nat) :=
  match src.kind with
  | .program => return .program (← src.list load false "body")
  | .blockStatement => return .block (← src.list load false "body")
  | .expressionStatement => return .expressionStatement (← src.required load "expression")
  | .returnStatement => return .returnStatement (← src.optional load "argument")
  | .variableDeclaration => do
    let kind ← src.declarationKind
    let declarations ← src.list load false "declarations"
    pure (.declaration kind declarations)
  | .variableDeclarator => do
    let id ← src.required load "id"
    let init ← src.optional load "init"
    pure (.declarator id init)
  | .identifier => return .identifier (← src.identifierName)
  | .thisExpression => pure .this
  | .literal => pure (.literal src.literalText)
  | .memberExpression => do
    let target ← src.required load "object"
    let key ← src.required load "property"
    let computed ← src.flag "computed"
    pure (.member target key computed)
  | .callExpression => src.call load .call
  | .newExpression => src.call load .construct
  | .functionExpression => src.function load .expression
  | .functionDeclaration => src.function load .declaration
  | .arrowFunctionExpression => src.function load .arrow
  | .assignmentExpression => do
    let operator ← src.operator
    let left ← src.required load "left"
    let right ← src.required load "right"
    pure (.assignment operator left right)
  | .property => do
    let key ← src.required load "key"
    let value ← src.required load "value"
    let computed ← src.flag "computed"
    pure (.property key value computed)
  | .objectExpression => return .object (← src.list load false "properties")
  | .arrayExpression => return .array (← src.list load true "elements")
  | .conditionalExpression => do
    let test ← src.required load "test"
    let consequent ← src.required load "consequent"
    let alternate ← src.required load "alternate"
    pure (.conditional test consequent alternate)
  | .other => do
    Load.emit (.keptUnmodelled src.typeName (← Load.here))
    let children ← src.allChildren load
    pure (.other src.typeName children)

end Source

/-- **Loads one node with all below it**, where `room` more nodes may be nested in each other. -/
def loadNode : Nat → Json → Load Nat
  | 0, _ => Load.refuse .tooDeep
  | room + 1, .obj fields =>
    match fields.lookup "type" with
    | some (.str typeName) => do
      let src : Source := ⟨typeName, fields⟩
      let form ← src.readForm (loadNode room)
      Load.store { span := src.span, form := form }
    | _ => Load.refuse .missingType
  | _ + 1, _ => Load.refuse .notANode

/-! ## 5. Documents -/

namespace Document

/-- **Loads a document from a JSON value.** The events of a refused document end where it was
    refused. -/
def ofJson (v : Json) : Traced (Except DocumentError Document) :=
  match loadNode nodeLimit v {} with
  | .ok root s =>
    ⟨.ok ⟨s.arena, root⟩, s.events.toList ++ [.loaded s.arena.size root]⟩
  | .error e s => ⟨.error e, s.events.toList⟩

/-- **Loads a document from text.** Text that nests its brackets too deeply is refused unread. -/
def ofText (text : String) : Traced (Except LoadError Document) :=
  if nestsDeeper nestingLimit text.toList then ⟨.error .tooNested, []⟩
  else
    match Json.parse text with
    | .error d => ⟨.error (.text d), []⟩
    | .ok v =>
      let loaded := ofJson v
      ⟨loaded.value.mapError .document, loaded.events⟩

end Document

end CallNames
