import CallNames.Json.Quoted
import CallNames.Number.Shortest

/-!
# Writing JSON text

* `Number.write`: an integer by its decimal digits, a binary64 number by the fewest digits that
  read back. **A binary64 number always shows that it is one**, by a fraction or an exponent;
* `Json.compact`: no blanks, fields in their order;
* `Json.pretty`: one item or field a line, two blanks for each level.
-/

namespace CallNames

/-! ## 1. Numbers -/

/-- The decimal digits of a natural number. -/
def natText (n : Nat) : List Char := Nat.toDigits 10 n

/-- The decimal digits of an integer, after its sign. -/
def intText (n : Int) : List Char :=
  if n < 0 then '-' :: natText n.natAbs else natText n.natAbs

/-- The exponents of the first digit for which the point is written in its place: numbers from
    `0.00001` to below `10 ^ 16`. -/
def positional (e : Int) : Bool := -5 ≤ e && e ≤ 15

namespace Decimal

/-- Writes a decimal: positionally with a fraction of at least one digit, or with one digit before
    the point and a signed exponent. -/
def write (d : Decimal) : List Char :=
  let digits := natText d.digits
  let e : Int := d.exponent + digits.length - 1
  if positional e then
    if e < 0 then '0' :: '.' :: List.replicate (-e - 1).toNat '0' ++ digits
    else
      let whole := e.toNat + 1
      if digits.length ≤ whole then
        digits ++ List.replicate (whole - digits.length) '0' ++ ['.', '0']
      else digits.take whole ++ '.' :: digits.drop whole
  else
    let fraction := if digits.length = 1 then [] else '.' :: digits.drop 1
    let sign := if e < 0 then '-' else '+'
    digits.take 1 ++ fraction ++ 'e' :: sign :: natText e.natAbs

end Decimal

namespace Binary64

/-- Writes a binary64 number; zero has its sign too. -/
def write (x : Binary64) : List Char :=
  let magnitude := if x.mantissa = 0 then ['0', '.', '0'] else x.shortest.write
  if x.negative then '-' :: magnitude else magnitude

end Binary64

namespace Number

/-- Writes a number. -/
def write : Number → List Char
  | .int n => intText n
  | .real x => x.write

end Number

namespace Json

/-! ## 2. Compact text -/

/-- Puts a comma between the parts. -/
def joinComma (parts : List (List Char)) : List Char :=
  [','].intercalate parts

mutual

/-- **The text of a value without any blanks.** -/
def compact : Json → List Char
  | .null => ['n', 'u', 'l', 'l']
  | .bool true => ['t', 'r', 'u', 'e']
  | .bool false => ['f', 'a', 'l', 's', 'e']
  | .num n => n.write
  | .str s => Quoted.encode s
  | .arr items => '[' :: joinComma (compactItems items) ++ [']']
  | .obj fields => '{' :: joinComma (compactFields fields) ++ ['}']

/-- The texts of the items of an array. -/
def compactItems : List Json → List (List Char)
  | [] => []
  | v :: rest => compact v :: compactItems rest

/-- The texts of the fields of an object. -/
def compactFields : List (String × Json) → List (List Char)
  | [] => []
  | (k, v) :: rest => (Quoted.encode k ++ ':' :: compact v) :: compactFields rest

end

/-- The compact text as a string. -/
def compactText (v : Json) : String := String.ofList v.compact

/-! ## 3. Indented text -/

/-- Starts a line at a level. -/
def newline (level : Nat) : List Char :=
  '\n' :: List.replicate (2 * level) ' '

/-- Lays out the parts of a container that is opened at `level`, one a line; a container without
    parts stays on one line. -/
def layout (opening closing : Char) (level : Nat) (parts : List (List Char)) : List Char :=
  if parts.isEmpty then [opening, closing]
  else
    opening :: joinComma (parts.map (newline (level + 1) ++ ·)) ++ newline level ++ [closing]

mutual

/-- **The text of a value with one item or field a line**, where the value starts at `level`. -/
def pretty (level : Nat) : Json → List Char
  | .arr items => layout '[' ']' level (prettyItems level items)
  | .obj fields => layout '{' '}' level (prettyFields level fields)
  | .null => compact .null
  | .bool b => compact (.bool b)
  | .num n => compact (.num n)
  | .str s => compact (.str s)

/-- The texts of the items of an array that is opened at `level`. -/
def prettyItems (level : Nat) : List Json → List (List Char)
  | [] => []
  | v :: rest => pretty (level + 1) v :: prettyItems level rest

/-- The texts of the fields of an object that is opened at `level`. -/
def prettyFields (level : Nat) : List (String × Json) → List (List Char)
  | [] => []
  | (k, v) :: rest =>
    (Quoted.encode k ++ ':' :: ' ' :: pretty (level + 1) v) :: prettyFields level rest

end

/-- The indented text as a string. -/
def prettyText (v : Json) : String := String.ofList (v.pretty 0)

end Json

end CallNames
