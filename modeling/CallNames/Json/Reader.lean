import CallNames.Json.Numeral
import CallNames.Json.Quoted

/-!
# Reading JSON text

The reader is a machine with a stack: `Reader.step` takes one character, and a document is read by
folding the characters of its text. The stack holds the arrays and objects that are open, so that
**the number of open containers is the length of the stack at every point**, and no recursion
depends on the nesting of the text.

* blanks are space, tab, line feed and carriage return;
* a repeated key keeps its first place and takes its last value (`Json.setField`);
* the text of a document holds one value and blanks, and nothing else.
-/

namespace CallNames

/-! ## 1. States -/

/-- A container that has been opened and not closed. -/
inductive Frame where
  /-- The items read so far, the last one first. -/
  | array (items : List Json)
  /-- The fields read so far and the last key read, whose value may be still to come. -/
  | object (fields : Fields) (key : String)
deriving Repr, Inhabited

/-- What the reader is in the middle of, or what it expects next. -/
inductive Mode where
  /-- A value must come. -/
  | value
  /-- An array has been opened: a value or the end of the array. -/
  | firstItem
  /-- An object has been opened: a key or the end of the object. -/
  | firstKey
  /-- A comma has been read in an object: a key must come. -/
  | nextKey
  /-- A key has been read: a colon must come. -/
  | colon
  /-- A value has been read inside a container: a comma or the end of the container. -/
  | afterItem
  /-- The document's value has been read: only blanks may follow. -/
  | complete (value : Json)
  /-- Inside a key or a string. -/
  | text (isKey : Bool) (read : Quoted)
  /-- Inside a number. -/
  | numeral (read : Numeral)
  /-- Inside `null`, `true` or `false`, with the letters that are still to come. -/
  | word (rest : List Char) (value : Json)
deriving Repr, Inhabited

/-- The state of the reader. -/
structure Reader where
  mode : Mode := .value
  stack : List Frame := []
deriving Repr, Inhabited

/-- Space, tab, line feed and carriage return. -/
def isBlank (c : Char) : Bool :=
  c = ' ' || c = '\t' || c = '\n' || c = '\r'

namespace Reader

/-! ## 2. Values -/

/-- The state after a value has been read inside the containers of `stack`. -/
def put (stack : List Frame) (value : Json) : Reader :=
  match stack with
  | [] => ⟨.complete value, []⟩
  | .array items :: rest => ⟨.afterItem, .array (value :: items) :: rest⟩
  | .object fields key :: rest => ⟨.afterItem, .object (Json.setField key value fields) key :: rest⟩

/-- Closes the innermost container. -/
def close : List Frame → Except TextDefect Reader
  | [] => .error .malformed
  | .array items :: rest => .ok (put rest (.arr items.reverse))
  | .object fields _ :: rest => .ok (put rest (.obj fields))

/-- Takes the first character of a value. -/
def startValue (stack : List Frame) (c : Char) : Except TextDefect Reader :=
  if c = '[' then .ok ⟨.firstItem, .array [] :: stack⟩
  else if c = '{' then .ok ⟨.firstKey, .object [] "" :: stack⟩
  else if c = '"' then .ok ⟨.text false {}, stack⟩
  else if c = 'n' then .ok ⟨.word ['u', 'l', 'l'] .null, stack⟩
  else if c = 't' then .ok ⟨.word ['r', 'u', 'e'] (.bool true), stack⟩
  else if c = 'f' then .ok ⟨.word ['a', 'l', 's', 'e'] (.bool false), stack⟩
  else match Numeral.start? c with
    | some n => .ok ⟨.numeral n, stack⟩
    | none => .error .malformed

/-- Remembers the key whose value comes next. -/
def setKey (key : String) : List Frame → List Frame
  | .object fields _ :: rest => .object fields key :: rest
  | stack => stack

/-- Takes a character that is no blank, between two values. -/
def punctuate (mode : Mode) (stack : List Frame) (c : Char) : Except TextDefect Reader :=
  match mode, stack with
  | .value, stack => startValue stack c
  | .firstItem, stack => if c = ']' then close stack else startValue stack c
  | .firstKey, stack =>
    if c = '}' then close stack
    else if c = '"' then .ok ⟨.text true {}, stack⟩
    else .error .malformed
  | .nextKey, stack => if c = '"' then .ok ⟨.text true {}, stack⟩ else .error .malformed
  | .colon, stack => if c = ':' then .ok ⟨.value, stack⟩ else .error .malformed
  | .afterItem, .array items :: rest =>
    if c = ',' then .ok ⟨.value, .array items :: rest⟩
    else if c = ']' then close (.array items :: rest)
    else .error .malformed
  | .afterItem, .object fields key :: rest =>
    if c = ',' then .ok ⟨.nextKey, .object fields key :: rest⟩
    else if c = '}' then close (.object fields key :: rest)
    else .error .malformed
  | _, _ => .error .malformed

/-- Takes a character between two values. -/
def between (s : Reader) (c : Char) : Except TextDefect Reader :=
  if isBlank c then .ok s else punctuate s.mode s.stack c

/-! ## 3. The machine -/

/-- **Takes one character.** A number has no end mark of its own: the character that ends it is
    taken once more, after the number. -/
def step (s : Reader) (c : Char) : Except TextDefect Reader :=
  match s.mode with
  | .text isKey read => do
    match ← read.next c with
    | some read => .ok ⟨.text isKey read, s.stack⟩
    | none =>
      if isKey then .ok ⟨.colon, setKey read.text s.stack⟩
      else .ok (put s.stack (.str read.text))
  | .numeral read => do
    match ← read.next c with
    | some read => .ok ⟨.numeral read, s.stack⟩
    | none => (put s.stack (.num (← read.value))).between c
  | .word [] _ => .error .malformed
  | .word (expected :: rest) value =>
    if c = expected then
      if rest.isEmpty then .ok (put s.stack value) else .ok ⟨.word rest value, s.stack⟩
    else .error .malformed
  | _ => s.between c

/-- The value of a text that ends here. -/
def finish (s : Reader) : Except TextDefect Json :=
  match s.mode with
  | .complete value => .ok value
  | .numeral read =>
    if read.isComplete then do
      match (put s.stack (.num (← read.value))).mode with
      | .complete value => .ok value
      | _ => .error .truncated
    else .error .truncated
  | _ => .error .truncated

end Reader

namespace Json

/-- **Reads a whole text as one JSON value.** -/
def read (text : List Char) : Except TextDefect Json := do
  (← text.foldlM Reader.step {}).finish

/-- Reads a text given as a string. -/
def parse (text : String) : Except TextDefect Json :=
  read text.toList

end Json

end CallNames
