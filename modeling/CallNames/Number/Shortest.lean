import CallNames.Number.Binary64

/-!
# The shortest decimal that reads back

Every real number in an interval around a binary64 number rounds to it. Among the decimals in
that interval the one with the fewest digits is wanted, and of those with equally many the one
nearest to the number itself.

* `Decimal`: `digits · 10 ^ exponent`;
* `Binary64.onGrid?`: the best decimal of the interval with a given count of digits. Only the
  two neighbours of the number on the grid of such decimals can be the best;
* `Binary64.shortest`: the first grid that has one. Seventeen digits always suffice.
-/

namespace CallNames

/-- The number `digits · 10 ^ exponent`. -/
structure Decimal where
  digits : Nat
  exponent : Int
deriving DecidableEq, Repr, Inhabited

namespace Binary64

/-- The magnitude as a quotient of natural numbers. -/
def ratio (x : Binary64) : Nat × Nat :=
  (x.mantissa * Nat.pow 2 x.exponent.toNat, Nat.pow 2 (-x.exponent).toNat)

/-- Four times the mantissas at which the interval of `x` starts and ends. The next smaller
    number is nearer than the next larger one when the mantissa is a power of two. -/
def quarterBounds (x : Binary64) : Nat × Nat :=
  let m := 4 * x.mantissa
  (if x.mantissa = hiddenBit && leastExponent < x.exponent then m - 1 else m - 2, m + 2)

/-- The decimal with `count` digits that is nearest to the magnitude of `x` and reads back as
    it, if there is one. **The ends of the interval belong to it if the mantissa is even.** -/
def onGrid? (x : Binary64) (count : Nat) : Option Decimal :=
  let (n, d) := x.ratio
  let place := floorLog 10 n d + 1 - count
  let quarter := x.exponent - 2
  let unit := Nat.pow 10 place.toNat * Nat.pow 2 (-quarter).toNat
  let scale := Nat.pow 2 quarter.toNat * Nat.pow 10 (-place).toNat
  let value := 4 * x.mantissa * scale
  let (low, high) := x.quarterBounds
  let inside (c : Nat) : Bool :=
    if x.mantissa % 2 = 0 then low * scale ≤ c * unit && c * unit ≤ high * scale
    else low * scale < c * unit && c * unit < high * scale
  let below := value / unit
  match inside below, inside (below + 1) with
  | true, true => some ⟨roundDiv value unit, place⟩
  | true, false => some ⟨below, place⟩
  | false, true => some ⟨below + 1, place⟩
  | false, false => none

/-- **The shortest decimal that reads back as the magnitude of `x`**, for `x` other than zero.
    The last step writes `10 · 10 ^ p`, the upper neighbour of a number just below a power of
    ten, with one digit. -/
def shortest (x : Binary64) : Decimal :=
  let best := ((List.range 17).findSome? fun k => x.onGrid? (k + 1)).getD ⟨0, 0⟩
  if best.digits = 10 then ⟨1, best.exponent + 1⟩ else best

end Binary64

end CallNames
