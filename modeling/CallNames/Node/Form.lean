import CallNames.Node.Kind

/-!
# Forms of nodes

A form is what a node consists of besides its place in the source: its own data and its slots for
children. The type of the children is a parameter, so the same forms describe nodes of an arena,
whose children are handles, and trees.

* `Form.slots` lists all slots in source order; an empty slot is `none`;
* `Form.children` lists what the slots hold.
-/

namespace CallNames

/-- The offsets in the source at which a node starts and ends; both are 0 if unknown. -/
structure Span where
  pos : Nat := 0
  stop : Nat := 0
deriving DecidableEq, Repr, Inhabited

/-- How a function is spelled. -/
inductive FunctionStyle where
  | expression
  | declaration
  | arrow
deriving DecidableEq, Repr, Inhabited

/-- Whether a function is called or an object constructed. -/
inductive CallStyle where
  | call
  | construct
deriving DecidableEq, Repr, Inhabited

/-- What a node consists of. -/
inductive Form (α : Type) where
  | program (body : List (Option α))
  | block (body : List (Option α))
  | expressionStatement (expression : Option α)
  | returnStatement (argument : Option α)
  | declaration (kind : DeclarationKind) (declarations : List (Option α))
  | declarator (id init : Option α)
  | identifier (name : String)
  | this
  | literal (raw : String)
  | member (object property : Option α) (computed : Bool)
  | call (style : CallStyle) (callee : Option α) (arguments : List (Option α))
  | function (style : FunctionStyle) (id : Option α) (params : List (Option α)) (body : Option α)
  | assignment (operator : String) (left right : Option α)
  | property (key value : Option α) (computed : Bool)
  | object (properties : List (Option α))
  | array (elements : List (Option α))
  | conditional (test consequent alternate : Option α)
  | other (typeName : String) (children : List (Option α))
deriving DecidableEq, Repr, Inhabited

namespace FunctionStyle

/-- The kind of the functions of a style. -/
def kind : FunctionStyle → Kind
  | expression => .functionExpression
  | declaration => .functionDeclaration
  | arrow => .arrowFunctionExpression

end FunctionStyle

namespace CallStyle

/-- The kind of the calls of a style. -/
def kind : CallStyle → Kind
  | call => .callExpression
  | construct => .newExpression

end CallStyle

namespace Form

variable {α : Type}

/-- The kind of a form. -/
def kind : Form α → Kind
  | .program _ => .program
  | .block _ => .blockStatement
  | .expressionStatement _ => .expressionStatement
  | .returnStatement _ => .returnStatement
  | .declaration _ _ => .variableDeclaration
  | .declarator _ _ => .variableDeclarator
  | .identifier _ => .identifier
  | .this => .thisExpression
  | .literal _ => .literal
  | .member _ _ _ => .memberExpression
  | .call style _ _ => style.kind
  | .function style _ _ _ => style.kind
  | .assignment _ _ _ => .assignmentExpression
  | .property _ _ _ => .property
  | .object _ => .objectExpression
  | .array _ => .arrayExpression
  | .conditional _ _ _ => .conditionalExpression
  | .other _ _ => .other

/-- The type name of a form; **a form that is not modelled keeps the name of its document**. -/
def typeName : Form α → String
  | .other typeName _ => typeName
  | form => form.kind.name

/-- All slots for children, in source order. -/
def slots : Form α → List (Option α)
  | .program body => body
  | .block body => body
  | .expressionStatement expression => [expression]
  | .returnStatement argument => [argument]
  | .declaration _ declarations => declarations
  | .declarator id init => [id, init]
  | .identifier _ => []
  | .this => []
  | .literal _ => []
  | .member target key _ => [target, key]
  | .call _ callee arguments => callee :: arguments
  | .function _ id params body => id :: params ++ [body]
  | .assignment _ left right => [left, right]
  | .property key value _ => [key, value]
  | .object properties => properties
  | .array elements => elements
  | .conditional test consequent alternate => [test, consequent, alternate]
  | .other _ children => children

/-- The children, in source order. -/
def children (f : Form α) : List α := f.slots.filterMap id

/-- A child is what some slot holds. -/
theorem mem_children {f : Form α} {a : α} : a ∈ f.children ↔ some a ∈ f.slots := by
  simp [children]

/-- The name of an identifier. -/
def identifierName? : Form α → Option String
  | .identifier name => some name
  | _ => none

end Form

end CallNames
