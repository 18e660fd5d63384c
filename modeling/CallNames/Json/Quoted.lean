import CallNames.Json.Numeral

/-!
# Quoted text

Strings and keys stand between quotes, and some characters are written as escapes.

* `Quoted.encode` writes a text: **only the quote, the backslash and the control characters below
  U+0020 are escaped**, five of them by a letter and the others by four hexadecimal digits;
* `Quoted.next` reads a text one character at a time, with every escape of the format. A
  character outside the basic plane may be written as a pair of surrogate escapes, and a
  surrogate without its partner is refused;
* four bytes must follow `\u`. A text that ends before them is truncated, whatever they are.
-/

namespace CallNames

/-! ## 1. Writing -/

/-- A hexadecimal digit, in lower case. -/
def hexChar (n : Nat) : Char :=
  if n < 10 then Char.ofNat ('0'.toNat + n) else Char.ofNat ('a'.toNat + n - 10)

/-- The value of a hexadecimal digit of either case. -/
def hexDigit? (c : Char) : Option Nat :=
  if '0' ≤ c ∧ c ≤ '9' then some (c.toNat - '0'.toNat)
  else if 'a' ≤ c ∧ c ≤ 'f' then some (c.toNat - 'a'.toNat + 10)
  else if 'A' ≤ c ∧ c ≤ 'F' then some (c.toNat - 'A'.toNat + 10)
  else none

/-- The letter that stands after a backslash for a control character. -/
def controlLetter? (c : Char) : Option Char :=
  if c = '\x08' then some 'b'
  else if c = '\x0c' then some 'f'
  else if c = '\n' then some 'n'
  else if c = '\r' then some 'r'
  else if c = '\t' then some 't'
  else none

namespace Quoted

/-- One character of a quoted text. -/
def encodeChar (c : Char) : List Char :=
  if c = '"' then ['\\', '"']
  else if c = '\\' then ['\\', '\\']
  else match controlLetter? c with
    | some letter => ['\\', letter]
    | none =>
      if c.toNat < 0x20 then
        ['\\', 'u', '0', '0', hexChar (c.toNat / 16), hexChar (c.toNat % 16)]
      else [c]

/-- A text between quotes. -/
def encode (s : String) : List Char :=
  '"' :: s.toList.flatMap encodeChar ++ ['"']

end Quoted

/-! ## 2. Reading -/

/-- Where a quoted text stands with respect to escapes. -/
inductive Escape where
  /-- Outside any escape. -/
  | none
  /-- After a backslash. -/
  | backslash
  /-- After `\u` and `count` hexadecimal digits; `lead` is a leading surrogate before it. -/
  | unit (lead : Option Nat) (value count : Nat)
  /-- After `\u` and `bytes` bytes that are not all hexadecimal digits. -/
  | spoiled (bytes : Nat)
  /-- After a leading surrogate. -/
  | lead (value : Nat)
  /-- After a leading surrogate and a backslash. -/
  | leadBackslash (value : Nat)
deriving DecidableEq, Repr, Inhabited

/-- A quoted text as far as it has been read: its characters, the last one first. -/
structure Quoted where
  chars : List Char := []
  escape : Escape := .none
deriving DecidableEq, Repr, Inhabited

namespace Quoted

/-- The text read so far. -/
def text (q : Quoted) : String := String.ofList q.chars.reverse

/-- Adds a character and leaves any escape. -/
def push (q : Quoted) (c : Char) : Quoted := ⟨c :: q.chars, .none⟩

/-- Whether a code unit is the first of a surrogate pair. -/
def isLead (unit : Nat) : Bool := 0xD800 ≤ unit && unit ≤ 0xDBFF

/-- Whether a code unit is the second of a surrogate pair. -/
def isTrail (unit : Nat) : Bool := 0xDC00 ≤ unit && unit ≤ 0xDFFF

/-- The character of a surrogate pair. -/
def ofPair (lead trail : Nat) : Char :=
  Char.ofNat (0x10000 + (lead - 0xD800) * 0x400 + (trail - 0xDC00))

/-- A code unit has been read in full. -/
def endUnit (q : Quoted) (lead : Option Nat) (unit : Nat) : Except TextDefect Quoted :=
  match lead with
  | some first => if isTrail unit then .ok (q.push (ofPair first unit)) else .error .malformed
  | .none =>
    if isTrail unit then .error .malformed
    else if isLead unit then .ok { q with escape := .lead unit }
    else .ok (q.push (Char.ofNat unit))

/-- The character after a backslash. -/
def afterBackslash (q : Quoted) (c : Char) : Except TextDefect Quoted :=
  if c = '"' ∨ c = '\\' ∨ c = '/' then .ok (q.push c)
  else if c = 'b' then .ok (q.push '\x08')
  else if c = 'f' then .ok (q.push '\x0c')
  else if c = 'n' then .ok (q.push '\n')
  else if c = 'r' then .ok (q.push '\r')
  else if c = 't' then .ok (q.push '\t')
  else if c = 'u' then .ok { q with escape := .unit .none 0 0 }
  else .error .malformed

/-- One more of the four bytes after `\u`, where some are no hexadecimal digits. -/
def spoil (q : Quoted) (bytes : Nat) (c : Char) : Except TextDefect Quoted :=
  if 4 ≤ bytes + c.utf8Size then .error .malformed
  else .ok { q with escape := .spoiled (bytes + c.utf8Size) }

/-- One more character: the text goes on (`some`), is closed by it (`none`), or is refused. -/
def next (q : Quoted) (c : Char) : Except TextDefect (Option Quoted) :=
  match q.escape with
  | .none =>
    if c = '"' then .ok none
    else if c = '\\' then .ok (some { q with escape := .backslash })
    else if c.toNat < 0x20 then .error .malformed
    else .ok (some (q.push c))
  | .backslash => some <$> q.afterBackslash c
  | .unit lead value count =>
    match hexDigit? c with
    | some d =>
      if count = 3 then some <$> q.endUnit lead (16 * value + d)
      else .ok (some { q with escape := .unit lead (16 * value + d) (count + 1) })
    | none => some <$> q.spoil count c
  | .spoiled bytes => some <$> q.spoil bytes c
  | .lead value =>
    if c = '\\' then .ok (some { q with escape := .leadBackslash value }) else .error .malformed
  | .leadBackslash value =>
    if c = 'u' then .ok (some { q with escape := .unit (some value) 0 0 }) else .error .malformed

end Quoted

end CallNames
