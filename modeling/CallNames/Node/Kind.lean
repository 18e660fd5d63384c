/-!
# Kinds of syntax nodes

The node types of an ESTree document that are modelled, and one kind for all others.

* `Kind.name` is the type name a document uses, and `Kind.ofName` its inverse: **a name that is not
  modelled is of the kind `other`**;
* `DeclarationKind` tells the keywords of variable declarations apart.
-/

namespace CallNames

/-! ## 1. Node types -/

/-- The kind of a node. -/
inductive Kind where
  | program
  | expressionStatement
  | blockStatement
  | returnStatement
  | variableDeclaration
  | variableDeclarator
  | identifier
  | thisExpression
  | literal
  | memberExpression
  | callExpression
  | newExpression
  | functionExpression
  | functionDeclaration
  | arrowFunctionExpression
  | assignmentExpression
  | property
  | objectExpression
  | arrayExpression
  | conditionalExpression
  | other
deriving DecidableEq, Repr, Inhabited

namespace Kind

/-- The type name of the nodes of a kind. Nodes of the kind `other` carry a name of their own. -/
def name : Kind → String
  | program => "Program"
  | expressionStatement => "ExpressionStatement"
  | blockStatement => "BlockStatement"
  | returnStatement => "ReturnStatement"
  | variableDeclaration => "VariableDeclaration"
  | variableDeclarator => "VariableDeclarator"
  | identifier => "Identifier"
  | thisExpression => "ThisExpression"
  | literal => "Literal"
  | memberExpression => "MemberExpression"
  | callExpression => "CallExpression"
  | newExpression => "NewExpression"
  | functionExpression => "FunctionExpression"
  | functionDeclaration => "FunctionDeclaration"
  | arrowFunctionExpression => "ArrowFunctionExpression"
  | assignmentExpression => "AssignmentExpression"
  | property => "Property"
  | objectExpression => "ObjectExpression"
  | arrayExpression => "ArrayExpression"
  | conditionalExpression => "ConditionalExpression"
  | other => "Other"

/-- The kinds with a model of their own. -/
def modelled : List Kind :=
  [program, expressionStatement, blockStatement, returnStatement, variableDeclaration,
    variableDeclarator, identifier, thisExpression, literal, memberExpression, callExpression,
    newExpression, functionExpression, functionDeclaration, arrowFunctionExpression,
    assignmentExpression, property, objectExpression, arrayExpression, conditionalExpression]

/-- The kind of the nodes with a type name. -/
def ofName (s : String) : Kind :=
  (modelled.find? fun k => k.name = s).getD other

/-- Functions in all three spellings. -/
def isFunction : Kind → Bool
  | functionExpression | functionDeclaration | arrowFunctionExpression => true
  | _ => false

/-- **Every kind is found by its name.** -/
@[simp] theorem ofName_name (k : Kind) : ofName k.name = k := by
  cases k <;> decide

end Kind

/-! ## 2. Declarations -/

/-- The keyword of a variable declaration. -/
inductive DeclarationKind where
  | varDecl
  | letDecl
  | constDecl
  | usingDecl
  | awaitUsingDecl
deriving DecidableEq, Repr, Inhabited

namespace DeclarationKind

/-- The keyword as it stands in source text. -/
def keyword : DeclarationKind → String
  | varDecl => "var"
  | letDecl => "let"
  | constDecl => "const"
  | usingDecl => "using"
  | awaitUsingDecl => "await using"

/-- The name under which the kind is written in an arena's listing. -/
def name : DeclarationKind → String
  | varDecl => "Var"
  | letDecl => "Let"
  | constDecl => "Const"
  | usingDecl => "Using"
  | awaitUsingDecl => "AwaitUsing"

/-- All declaration kinds. -/
def all : List DeclarationKind := [varDecl, letDecl, constDecl, usingDecl, awaitUsingDecl]

/-- The declaration kind of a keyword. -/
def ofKeyword? (s : String) : Option DeclarationKind :=
  all.find? fun k => k.keyword = s

/-- Every declaration kind is found by its keyword. -/
@[simp] theorem ofKeyword?_keyword (k : DeclarationKind) : ofKeyword? k.keyword = some k := by
  cases k <;> decide

end DeclarationKind

end CallNames
