/-!
# Coloured text

A styled text stands between a sequence that starts the style and one that ends all styles. A text
may hold ending sequences itself; **after each of them the style is started again**, so that it
covers the whole text.
-/

namespace CallNames

/-- A style of text on a terminal, by its code. -/
structure Style where
  code : Nat
deriving DecidableEq, Repr, Inhabited

namespace Style

/-- Files are underlined. -/
def file : Style := ⟨4⟩

/-- The names of calls are bold. -/
def name : Style := ⟨1⟩

/-- Enclosing functions are cyan. -/
def function : Style := ⟨36⟩

/-- Operands are green. -/
def operand : Style := ⟨32⟩

/-- What is no operand is dimmed. -/
def nonOperand : Style := ⟨2⟩

/-- The sequence that starts a style. -/
def opening (s : Style) : List Char := '\x1b' :: '[' :: Nat.toDigits 10 s.code ++ ['m']

/-- The sequence that ends all styles. -/
def reset : List Char := ['\x1b', '[', '0', 'm']

/-- Starts the style again after each ending sequence of a text. -/
def reopen (s : Style) : List Char → List Char
  | '\x1b' :: '[' :: '0' :: 'm' :: rest => reset ++ s.opening ++ s.reopen rest
  | c :: rest => c :: s.reopen rest
  | [] => []

/-- A text in a style, or as it is if there is no colour. -/
def paint (s : Style) (colour : Bool) (text : String) : String :=
  if colour then String.ofList (s.opening ++ s.reopen text.toList ++ reset) else text

end Style

end CallNames
