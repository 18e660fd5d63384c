import CallNames.Arena.Basic

/-!
# Operands

A node is an operand of an expression around it if data flows through it into or out of the
expression. Positions are compared by reference, so an equal node elsewhere is no operand.

| expression | operands |
|---|---|
| call | its arguments |
| assignment | its right side |
| declarator | its initial value |
| property | its value |
| array | its elements |
| function expression | none |
| arrow function | its body |
| conditional | both branches, not the test |
| anything else | **every node** |
-/

namespace CallNames

namespace Arena

/-- Whether a node is an operand of an expression. -/
def isOperand (a : Arena) (node container : Ref) : Bool :=
  match a.form? container with
  | some (.call .call _ arguments) => arguments.contains node
  | some (.assignment _ _ right) => right == node
  | some (.declarator _ init) => init == node
  | some (.property _ value _) => value == node
  | some (.array elements) => elements.contains node
  | some (.function .expression _ _ _) => false
  | some (.function .arrow _ _ body) => body == node
  | some (.conditional _ consequent alternate) => consequent == node || alternate == node
  | _ => true

end Arena

end CallNames
