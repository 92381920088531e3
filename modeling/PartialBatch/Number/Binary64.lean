/-
# Binary floating point numbers

The numbers of IEEE 754 binary64, as data: a sign, a significand and an exponent of two.

| number | form |
| --- | --- |
| normal | `± m · 2^e`, `2^52 ≤ m < 2^53`, `-1074 ≤ e ≤ 971` |
| subnormal, zero | `± m · 2^(-1074)`, `m < 2^52` |
| others | an infinity with its sign, and one NaN |

`ofRatio` and `ofDecimal` round to nearest and, halfway, to the even significand; what
lies beyond the largest number by half a unit or more becomes an infinity. All of it is
exact arithmetic on natural numbers.
-/

import PartialBatch.Text.Basic

namespace PartialBatch

/-- A binary64 number. `finite n m e` is `m · 2^e`, negated if `n`. -/
inductive Binary64
  | nan
  | infinite (negative : Bool)
  | finite (negative : Bool) (significand : Nat) (exponent : Int)
  deriving DecidableEq, Repr, Inhabited

namespace Binary64

/-- The least exponent of a binary64 number. -/
def minExponent : Int := -1074

/-- The greatest exponent of a binary64 number. -/
def maxExponent : Int := 971

/-- The natural number nearest to `num / den`, the even one halfway. -/
def roundDiv (num den : Nat) : Nat :=
  let q := num / den
  let r := num % den
  if 2 * r < den then q else if 2 * r > den then q + 1 else if q % 2 = 0 then q else q + 1

/-- Two to a power, one for a negative exponent. -/
def twoTo (e : Int) : Nat := Nat.pow 2 e.toNat

/-- Ten to a power, one for a negative exponent. -/
def tenTo (e : Int) : Nat := Nat.pow 10 e.toNat

/-- The numerator and denominator of `(num / den) / 2^e`. -/
def scaled (num den : Nat) (e : Int) : Nat × Nat := (num * twoTo (-e), den * twoTo e)

/-- The exponent at which `num / den` has 53 significant bits, or the least one. -/
def exponentFor (num den : Nat) : Int :=
  let guess : Int := (Nat.log2 num : Int) - Nat.log2 den - 52
  let (n, d) := scaled num den guess
  max minExponent (if n < d * twoTo 52 then guess - 1 else guess)

/-- The number nearest to `± num / den`, for a positive `den`. -/
def ofRatio (negative : Bool) (num den : Nat) : Binary64 :=
  if num = 0 then finite negative 0 minExponent
  else
    let e := exponentFor num den
    let (n, d) := scaled num den e
    let m := roundDiv n d
    let (m, e) := if m = twoTo 53 then (twoTo 52, e + 1) else (m, e)
    if e > maxExponent then infinite negative else finite negative m e

/-- The number nearest to `± digits · 10^exponent`. Decimals of more than 310 places
before the point are infinite and those that start after 330 zeros behind it are zero, so
no power outside these bounds is computed. -/
def ofDecimal (negative : Bool) (digits : Nat) (exponent : Int) : Binary64 :=
  let places : Int := (Nat.toDigits 10 digits).length + exponent
  if digits = 0 ∨ places < -330 then finite negative 0 minExponent
  else if places > 310 then infinite negative
  else ofRatio negative (digits * tenTo exponent) (tenTo (-exponent))

/-- Whether a number is zero, of either sign. -/
def isZero : Binary64 → Bool
  | finite _ m _ => m = 0
  | _ => false

/-- The integer that a number equals, if there is one. -/
def toInt? : Binary64 → Option Int
  | finite negative m e =>
    let d := twoTo (-e)
    if m % d = 0 then
      let n : Int := (m / d * twoTo e : Nat)
      some (if negative then -n else n)
    else none
  | _ => none

/-- Whether `n ≤ x`; no integer is below a NaN. -/
def intLE (n : Int) : Binary64 → Bool
  | nan => false
  | infinite negative => !negative
  | finite negative m e =>
    let (num, den) := (m * twoTo e, twoTo (-e))
    n * den ≤ (if negative then -(num : Int) else num)

/-- Whether `x ≤ n`; a NaN is below no integer. -/
def leInt (x : Binary64) (n : Int) : Bool :=
  match x with
  | nan => false
  | infinite negative => negative
  | finite negative m e =>
    let (num, den) := (m * twoTo e, twoTo (-e))
    (if negative then -(num : Int) else num) ≤ n * den

end Binary64
end PartialBatch
