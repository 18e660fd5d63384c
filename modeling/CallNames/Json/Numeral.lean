import CallNames.Json.Basic

/-!
# Numerals in JSON text

A numeral is read one character at a time: `Numeral.next` says whether a character continues it,
ends it or spoils it. What a numeral denotes is settled once it has ended.

* **A whole numeral without point and exponent is an integer** if it lies between `-2 ^ 63` and
  `2 ^ 64 - 1`; `-0` has no integer reading that keeps its sign;
* every other numeral is the nearest binary64 number, and a numeral too large for one is refused;
* a numeral of any length is read in time linear in it: **digits are kept only until they make a
  number of `10 ^ 800`**, and of the others it is kept whether one is positive. A number half-way
  between two neighbouring binary64 numbers has fewer than 800 digits, so the nearest one is the
  same.
-/

namespace CallNames

/-- Why a text is not a JSON document. -/
inductive TextDefect where
  /-- The text ends where more is needed. -/
  | truncated
  /-- A character stands where it may not. -/
  | malformed
deriving DecidableEq, Repr, Inhabited

/-- The value of a decimal digit. -/
def digit? (c : Char) : Option Nat :=
  if '0' ≤ c ∧ c ≤ '9' then some (c.toNat - '0'.toNat) else none

/-- What was read last of a numeral. -/
inductive NumeralPart where
  | sign
  | leadingZero
  | whole
  | point
  | fraction
  | mark
  | markSign
  | exponent
deriving DecidableEq, Repr, Inhabited

/-- A numeral as far as it has been read: the digits before and after the point as one number,
    how many of them stand after the point, and the exponent with its sign. Of the digits that are
    not kept, `cut` stand before the point, and `excess` says whether one is positive. -/
structure Numeral where
  part : NumeralPart
  negative : Bool := false
  digits : Nat := 0
  places : Nat := 0
  cut : Nat := 0
  excess : Bool := false
  raisedDown : Bool := false
  raised : Nat := 0
  isWhole : Bool := true
deriving DecidableEq, Repr, Inhabited

namespace Numeral

/-- Digits are kept as long as their number is below this one. -/
def digitBound : Nat := Nat.pow 10 800

/-- The digits of an exponent are kept as long as their number is below this one; no text is long
    enough for its digits to make up for it. -/
def raisedBound : Nat := Nat.pow 10 20

/-- One more digit, with one more place after the point or with none. -/
def push (n : Numeral) (d : Nat) (afterPoint : Bool) : Numeral :=
  if n.digits < digitBound then
    { n with digits := 10 * n.digits + d, places := if afterPoint then n.places + 1 else n.places }
  else
    { n with cut := if afterPoint then n.cut else n.cut + 1, excess := n.excess || d ≠ 0 }

/-- One more digit of the exponent. -/
def pushRaised (n : Numeral) (d : Nat) : Numeral :=
  if n.raised < raisedBound then { n with raised := 10 * n.raised + d } else n

/-- The numeral that a character starts. -/
def start? (c : Char) : Option Numeral :=
  if c = '-' then some { part := .sign, negative := true }
  else match digit? c with
    | some 0 => some { part := .leadingZero }
    | some d => some { part := .whole, digits := d }
    | none => none

/-- A point or an exponent mark after the whole part or, for the mark, after the fraction. -/
def branch? (n : Numeral) (c : Char) : Option Numeral :=
  if c = '.' ∧ n.part ≠ .fraction then some { n with part := .point, isWhole := false }
  else if c = 'e' ∨ c = 'E' then some { n with part := .mark, isWhole := false }
  else none

/-- One more character: the numeral goes on (`some`), has ended before it (`none`), or cannot
    be a numeral. -/
def next (n : Numeral) (c : Char) : Except TextDefect (Option Numeral) :=
  match n.part, digit? c with
  | .sign, some 0 => .ok (some { n with part := .leadingZero })
  | .sign, some d => .ok (some { n with part := .whole, digits := d })
  | .leadingZero, some _ => .error .malformed
  | .whole, some d => .ok (some (n.push d false))
  | .point, some d | .fraction, some d => .ok (some { n.push d true with part := .fraction })
  | .mark, some d | .markSign, some d | .exponent, some d =>
    .ok (some { n.pushRaised d with part := .exponent })
  | .leadingZero, none | .whole, none | .fraction, none => .ok (n.branch? c)
  | .mark, none =>
    if c = '+' then .ok (some { n with part := .markSign })
    else if c = '-' then .ok (some { n with part := .markSign, raisedDown := true })
    else .error .malformed
  | .exponent, none => .ok none
  | .sign, none | .point, none | .markSign, none => .error .malformed

/-- Whether the numeral may end where it stands. -/
def isComplete (n : Numeral) : Bool :=
  match n.part with
  | .leadingZero | .whole | .fraction | .exponent => true
  | .sign | .point | .mark | .markSign => false

/-- The integer that a whole numeral denotes, if it has an integer reading: down to `-2 ^ 63` and
    below `2 ^ 64`. All digits of such a numeral are kept. -/
def int? (n : Numeral) : Option Int :=
  if ¬ n.isWhole then none
  else if n.negative then
    if 0 < n.digits ∧ n.digits ≤ 0x8000000000000000 then some (-n.digits) else none
  else if n.digits < 0x10000000000000000 then some n.digits else none

/-- The power of ten that the digits are multiplied by. -/
def power (n : Numeral) : Int :=
  let raised : Int := if n.raisedDown then -n.raised else n.raised
  raised + n.cut - n.places

/-- The binary64 number nearest to a numeral; an excess counts as one more digit. -/
def real? (n : Numeral) : Option Binary64 :=
  if n.excess then Binary64.ofDecimal? n.negative (10 * n.digits + 1) (n.power - 1)
  else Binary64.ofDecimal? n.negative n.digits n.power

/-- The number that a complete numeral denotes. -/
def value (n : Numeral) : Except TextDefect Number :=
  match n.int? with
  | some i => .ok (.int i)
  | none =>
    match n.real? with
    | some x => .ok (.real x)
    | none => .error .malformed

end Numeral

end CallNames
