/-
# Shortest decimals

The text of a binary64 number is the decimal with the fewest digits that reads back as
the same number, and of those the one nearest to it.

For `n = 1, 2, … 17` digits the number has two neighbours on the grid of decimals with
`n` digits. The first grid with a neighbour inside the interval of reals that round to the
number is taken; its ends belong to the interval if the significand is even. A tie between
two neighbours goes to the even digit.

| value | written |
| --- | --- |
| below `10^16` and not below `10^(-4)` | positional, with at least one place: `1.0`, `0.0001` |
| any other finite one | one digit, the rest behind a point, exponent: `1e-05`, `1.5e+16` |
| infinite, NaN | `inf`, `-inf`, `nan` |
-/

import PartialBatch.Number.Binary64

namespace PartialBatch
namespace Binary64

/-- A decimal `digits · 10^exponent`. -/
structure Decimal where
  digits : Nat
  exponent : Int
  deriving DecidableEq, Repr

namespace Decimal

/-- The numerator and denominator of a decimal times `4 · 2^(-e)`. -/
def ratioAt (x : Decimal) (e : Int) : Nat × Nat :=
  (4 * x.digits * tenTo x.exponent * twoTo (-e), tenTo (-x.exponent) * twoTo e)

/-- Whether a decimal lies among the reals that round to `m · 2^e`. -/
def roundsTo (x : Decimal) (m : Nat) (e : Int) : Bool :=
  let (n, d) := x.ratioAt e
  let low := if m = twoTo 52 ∧ e > minExponent then 4 * m - 1 else 4 * m - 2
  let high := 4 * m + 2
  if m % 2 = 0 then low * d ≤ n && n ≤ high * d else low * d < n && n < high * d

/-- The distance of a decimal from `m · 2^e`, in quarters of `2^e`, as a fraction. -/
def distance (x : Decimal) (m : Nat) (e : Int) : Nat × Nat :=
  let (n, d) := x.ratioAt e
  (max n (4 * m * d) - min n (4 * m * d), d)

/-- A decimal without zeros at its end. -/
def stripped (x : Decimal) : Decimal :=
  if x.digits ≠ 0 ∧ x.digits % 10 = 0 then stripped ⟨x.digits / 10, x.exponent + 1⟩ else x
termination_by x.digits
decreasing_by omega

end Decimal

/-- The place of the leading digit of `m · 2^e`: `10^k ≤ m · 2^e < 10^(k+1)`. -/
def leadingPlace (m : Nat) (e : Int) : Int :=
  ((Nat.toDigits 10 (m * tenTo 400 * twoTo e / twoTo (-e))).length : Int) - 401

/-- The neighbour of `m · 2^e` with `n` digits that reads back, if there is one. -/
def neighbour? (m : Nat) (e : Int) (n : Nat) : Option Decimal :=
  let p := leadingPlace m e - n + 1
  let below : Decimal :=
    ⟨m * twoTo e * tenTo (-p) / (twoTo (-e) * tenTo p), p⟩
  let above : Decimal := ⟨below.digits + 1, p⟩
  match below.roundsTo m e, above.roundsTo m e with
  | false, false => none
  | true, false => some below
  | false, true => some above
  | true, true =>
    let (db, d) := below.distance m e
    let (da, d') := above.distance m e
    if db * d' < da * d then some below
    else if da * d < db * d' then some above
    else if below.digits % 2 = 0 then some below else some above

/-- The shortest decimal that reads back as `m · 2^e`, for a positive `m`. -/
def shortest (m : Nat) (e : Int) : Decimal :=
  match (List.range 17).findSome? fun i => neighbour? m e (i + 1) with
  | some x => x.stripped
  | none => ⟨m, e⟩

/-- The text of a decimal. -/
def Decimal.text (x : Decimal) : Text :=
  let ds := Text.ofNat x.digits
  let point : Int := ds.length + x.exponent
  let zeros (n : Int) : Text := List.replicate n.toNat '0'
  if -4 < point ∧ point ≤ 16 then
    if point ≤ 0 then "0." ++ zeros (-point) ++ ds
    else if ds.length ≤ point.toNat then ds ++ zeros x.exponent ++ ".0"
    else ds.take point.toNat ++ "." ++ ds.drop point.toNat
  else
    let e := point - 1
    let fraction : Text := if ds.length ≤ 1 then [] else "." ++ ds.drop 1
    let mark : Text := if e < 0 then "e-" else "e+"
    let places := Text.ofNat e.natAbs
    ds.take 1 ++ fraction ++ mark ++ zeros (2 - places.length) ++ places

/-- The text of a number. -/
def text : Binary64 → Text
  | nan => "nan"
  | infinite negative => if negative then "-inf" else "inf"
  | finite negative m e =>
    let size : Text := if m = 0 then "0.0" else (shortest m e).text
    if negative then CodePoint.scalar '-' :: size else size

end Binary64
end PartialBatch
