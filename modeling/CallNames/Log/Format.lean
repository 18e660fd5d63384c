/-!
# Formats of the log

The format of the log is named by a word, in any case and with blanks around it. **Every other word
names the plain format.** Blanks are the characters with the Unicode property White_Space.
-/

namespace CallNames

/-- The characters with the Unicode property White_Space. -/
def isWhiteSpace (c : Char) : Bool :=
  let n := c.toNat
  (0x09 ≤ n && n ≤ 0x0d) || n = 0x20 || n = 0x85 || n = 0xa0 || n = 0x1680 ||
    (0x2000 ≤ n && n ≤ 0x200a) || n = 0x2028 || n = 0x2029 || n = 0x202f || n = 0x205f ||
    n = 0x3000

/-- A text without the blanks at its ends. -/
def trimmed (s : String) : List Char :=
  ((s.toList.dropWhile isWhiteSpace).reverse.dropWhile isWhiteSpace).reverse

/-- How the log is written. -/
inductive LogFormat where
  | text
  | tree
  | json
deriving DecidableEq, Repr, Inhabited

namespace LogFormat

/-- **The format of a word.** The words hold ASCII letters only, and no other character has one of
    these letters for its lower case, so mapping ASCII letters suffices. -/
def ofWord (s : String) : LogFormat :=
  let word := String.ofList ((trimmed s).map Char.toLower)
  if word = "tree" then tree else if word = "json" then json else text

end LogFormat

end CallNames
