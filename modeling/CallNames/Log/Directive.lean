import CallNames.Event
import CallNames.Json.Numeral
import CallNames.Log.Alphanumeric
import CallNames.Log.Format

/-!
# Directives of a log filter

A directive gives a threshold to the events whose target starts with a text and, if it asks for a
field, whose report has the field.

* `level`, `target=level` and `target` are directives; a target alone logs everything;
* after the target may stand a scope in brackets: `[{field}]` asks for a field and `[span]` for a
  span around the event. Nothing here runs in a span, so a directive that asks for one speaks about
  no event;
* the marks between the words are looked for in the text without the blanks at its ends, but **the
  words are cut from the whole text, at the same distance from its start in bytes**. After a blank
  in front the words are thus displaced, and a cut may fall into the middle of a character.
-/

namespace CallNames

/-! ## 1. Levels -/

namespace Level

/-- The rank of a level; what matters more has a smaller rank. -/
def rank : Level → Nat
  | error => 1
  | warn => 2
  | info => 3
  | debug => 4
  | trace => 5

end Level

/-- How much is logged: the greatest rank of a level that is, 0 for nothing at all. -/
abbrev Threshold := Nat

/-- Everything is logged. -/
def Threshold.all : Threshold := Level.trace.rank

/-- The number that digits denote, after a plus sign or without one, if it is the rank of a level.
    Numbers above all ranks need not be told apart. -/
def rankNumber? (word : List Char) : Option Threshold :=
  let digits := if word.head? = some '+' then word.tail else word
  if digits.isEmpty then none
  else
    let number := digits.foldlM (fun n c => (digit? c).map fun d => min (10 * n + d) 10) 0
    number.filter (· ≤ Threshold.all)

/-- The threshold of a word: the name of a level in any case, or its rank. -/
def threshold? (word : List Char) : Option Threshold :=
  let name := String.ofList (word.map Char.toLower)
  (["off", "error", "warn", "info", "debug", "trace"].findIdx? (· = name)).or (rankNumber? word)

/-! ## 2. Words cut from a text -/

/-- Why a text is no directive about events. -/
inductive DirectiveDefect where
  /-- The text has not the form of a directive. -/
  | unreadable
  /-- The directive asks for a span. -/
  | aboutSpans
  /-- A word starts or ends in the middle of a character. -/
  | brokenCharacter
deriving DecidableEq, Repr, Inhabited

/-- The number of bytes that a text has in UTF-8. -/
def byteLength (text : List Char) : Nat := text.foldr (fun c n => c.utf8Size + n) 0

/-- What is left after the first `n` bytes, if a character ends there. -/
def dropBytes? : Nat → List Char → Option (List Char)
  | 0, text => some text
  | _ + 1, [] => none
  | n + 1, c :: rest => if c.utf8Size ≤ n + 1 then dropBytes? (n + 1 - c.utf8Size) rest else none

/-- The word from one byte to another. -/
def wordBetween (text : List Char) (start stop : Nat) : Except DirectiveDefect (List Char) :=
  match dropBytes? start text, dropBytes? stop text with
  | some inner, some rest => .ok (inner.take (inner.length - rest.length))
  | _, _ => .error .brokenCharacter

/-- The word from a byte to the end. -/
def wordFrom (text : List Char) (start : Nat) : Except DirectiveDefect (List Char) :=
  match dropBytes? start text with
  | some word => .ok word
  | none => .error .brokenCharacter

/-! ## 3. Directives -/

/-- The threshold for the events whose target starts with a text and that have a field. -/
structure Directive where
  target : String
  field : Option String := none
  threshold : Threshold
deriving DecidableEq, Repr, Inhabited

namespace Directive

/-- Reads the level that starts at a byte; without a word everything is logged. -/
def readLevel (text : List Char) (start : Nat) : Except DirectiveDefect Threshold := do
  let word ← wordFrom text start
  if word.isEmpty then .ok Threshold.all
  else match threshold? word with
    | some threshold => .ok threshold
    | none => .error .unreadable

/-- Reads what follows a scope: a level or nothing. `rest` starts at the byte `start`. -/
def readAfterScope (text rest : List Char) (start : Nat) : Except DirectiveDefect Threshold :=
  match rest with
  | [] => .ok Threshold.all
  | '=' :: _ => readLevel text (start + 1)
  | _ => .error .unreadable

/-- Reads a field of a scope and what follows; `rest` starts at the byte `start`. A field has a
    name. A field that asks for a value as well is one of a span. -/
def readField (text rest : List Char) (start : Nat) :
    Except DirectiveDefect (String × Threshold) := do
  let stop := start + byteLength (rest.takeWhile (· ≠ '}'))
  match rest.dropWhile (· ≠ '}') with
  | [] => .error .unreadable
  | _ :: rest =>
    let field ← wordBetween text start stop
    match field, rest with
    | _ :: _, ']' :: rest =>
      let threshold ← readAfterScope text rest (stop + 2)
      if field.contains '=' then .error .aboutSpans else .ok (String.ofList field, threshold)
    | _, _ => .error .unreadable

/-- Reads a scope after its opening bracket, and what follows; `rest` starts at the byte `start`. -/
def readScope (target : String) (text rest : List Char) (start : Nat) :
    Except DirectiveDefect Directive := do
  let isInName (c : Char) : Bool := c ≠ ']' && c ≠ '{'
  let stop := start + byteLength (rest.takeWhile isInName)
  match rest.dropWhile isInName with
  | [] => .error .unreadable
  | ']' :: rest =>
    let _ ← wordBetween text start stop
    let _ ← readAfterScope text rest (stop + 1)
    .error .aboutSpans
  | _ :: rest =>
    let span ← wordBetween text start stop
    let (field, threshold) ← readField text rest (stop + 1)
    if span.isEmpty then .ok ⟨target, some field, threshold⟩ else .error .aboutSpans

/-- Whether a directive without a scope in front may start with a character. -/
def isStart (c : Char) : Bool := isAlphanumeric c || c = '-' || c = ':' || c = '_'

/-- Reads a directive that starts with a target or a level. -/
def readTarget (text marked : List Char) : Except DirectiveDefect Directive := do
  let isInTarget (c : Char) : Bool := c ≠ '=' && c ≠ '['
  let stop := byteLength (marked.takeWhile isInTarget)
  match marked.dropWhile isInTarget with
  | [] =>
    match threshold? text with
    | some threshold => .ok { target := "", threshold := threshold }
    | none => .ok { target := String.ofList text, threshold := Threshold.all }
  | '=' :: _ =>
    let target ← wordBetween text 0 stop
    let threshold ← readLevel text (stop + 1)
    .ok { target := String.ofList target, threshold := threshold }
  | _ :: rest =>
    let target ← wordBetween text 0 stop
    readScope (String.ofList target) text rest (stop + 1)

/-- **Reads a directive.** -/
def parse (s : String) : Except DirectiveDefect Directive :=
  match trimmed s with
  | [] => .error .unreadable
  | '[' :: rest => readScope "" s.toList rest 1
  | c :: rest => if isStart c then readTarget s.toList (c :: rest) else .error .unreadable

/-- Whether the directive speaks about an event. A field counts as present if the event can have
    it, with a value or without. -/
def covers (d : Directive) (e : Event) : Bool :=
  d.target.toList.isPrefixOf e.target.toList && d.field.all e.keys.contains

/-- How specific two directives for one event are: by the length of the target, then by whether
    there is a field, then by its name. -/
def compareTo (d other : Directive) : Ordering :=
  (compare d.target.length other.target.length).then (compare d.field other.field)

end Directive

end CallNames
