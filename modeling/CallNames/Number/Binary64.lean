/-!
# Binary64 numbers, kept exactly

A finite binary64 number is a sign, a whole mantissa and a power of two. Nothing here uses
machine floating point: a decimal is rounded to its nearest binary64 number by exact arithmetic
on natural numbers, so every step can be reasoned about.

* `roundDiv`: a quotient rounded to the nearest integer, a half to the even one;
* `floorLog`: the integer part of the logarithm of a quotient, in any base;
* `Binary64.ofDecimal?`: the binary64 number nearest to `digits · 10 ^ exponent`, and `none`
  when that number would be infinite.
-/

namespace CallNames

/-! ## 1. Quotients -/

/-- `n / d` rounded to the nearest integer, **a half to the even neighbour**. -/
def roundDiv (n d : Nat) : Nat :=
  let q := n / d
  let twice := 2 * (n % d)
  if twice < d then q else if d < twice then q + 1 else q + q % 2

/-- The integer part `k` of the logarithm of `n` in base `b`, and `n / b ^ k`. **Squaring the base
    halves the logarithm**, so a few steps suffice; `fuel` bounds them. -/
def logSplit : Nat → Nat → Nat → Nat × Nat
  | 0, _, n => (0, n)
  | fuel + 1, b, n =>
    if n < b then (0, n)
    else
      let (k, rest) := logSplit fuel (b * b) n
      if rest < b then (2 * k, rest) else (2 * k + 1, rest / b)

/-- How many digits `n` has in base `b`, less one: the integer part of its logarithm. -/
def digitLog (b n : Nat) : Nat :=
  (logSplit (n.log2 + 1) b n).1

/-- The greatest `k` with `b ^ k ≤ n / d`, for positive `n` and `d`. The digit counts of `n` and
    `d` leave two values to choose from, and one exact comparison decides. -/
def floorLog (b n d : Nat) : Int :=
  let k : Int := (digitLog b n : Int) - digitLog b d
  if d * Nat.pow b k.toNat ≤ n * Nat.pow b (-k).toNat then k else k - 1

/-! ## 2. The format -/

/-- The number `± mantissa · 2 ^ exponent`. The sign is kept for zero as well. -/
structure Binary64 where
  negative : Bool
  mantissa : Nat
  exponent : Int
deriving DecidableEq, Repr, Inhabited

namespace Binary64

/-- The exponent of the smallest numbers, whose mantissa may be short. -/
def leastExponent : Int := -1074

/-- The exponent of the largest numbers. -/
def greatestExponent : Int := 971

/-- The least mantissa with all 53 bits, `2 ^ 52`. -/
def hiddenBit : Nat := Nat.pow 2 52

/-- Zero, with its sign. -/
def zero (negative : Bool) : Binary64 := ⟨negative, 0, leastExponent⟩

/-- The number nearest to `± n / d` for positive `n` and `d`; `none` if it is too large. The
    exponent leaves 53 bits to the mantissa wherever the format has room for them. -/
def ofRatio? (negative : Bool) (n d : Nat) : Option Binary64 :=
  let q := max (floorLog 2 n d - 52) leastExponent
  let m := roundDiv (n * Nat.pow 2 (-q).toNat) (d * Nat.pow 2 q.toNat)
  let (m, q) := if m = 2 * hiddenBit then (hiddenBit, q + 1) else (m, q)
  if greatestExponent < q then none else some ⟨negative, m, q⟩

/-- **The number nearest to `± digits · 10 ^ exponent`**; `none` if it is too large. Exponents
    far outside the format are settled by the count of digits alone, so that no huge power is
    ever computed. -/
def ofDecimal? (negative : Bool) (digits : Nat) (exponent : Int) : Option Binary64 :=
  let leading : Int := digitLog 10 digits + exponent
  if digits = 0 || leading < -325 then some (zero negative)
  else if 309 < leading then none
  else ofRatio? negative (digits * Nat.pow 10 exponent.toNat) (Nat.pow 10 (-exponent).toNat)

end Binary64

end CallNames
