/-
# Numerals

Integers given as text. A plain numeral is a minus sign or none, then `0` or digits that do
not start with a zero. Other spellings are brought to a plain one first, by these steps in
order:

| step | takes away |
| --- | --- |
| `trim` | white space at both ends |
| sign | a plus; a minus is set aside |
| `withoutLeadingZeros?` | zeros at the front, with low lines behind the first of them |
| `withoutZeroFraction` | a point with one or more zeros behind it, at the end |
| `ungrouped?` | single low lines inside |

Zeros in front of a minus are leading zeros as well, so `0-5` names minus five. A zero stays
if nothing is left without it or if a point follows.

| numeral | may have |
| --- | --- |
| plain as it is given | 4300 code points, a minus sign among them; a longer one is oversized |
| brought to a plain one | 4300 digits, and a sign |

So long padding is no hindrance.
-/

import PartialBatch.Text.Blank

namespace PartialBatch
namespace Text

/-- The most digits of a plain numeral. -/
def maxNumeralDigits : Nat := 4300

/-- The number that a run of digits names, unless it starts with a zero that is not all of
it or is too long. -/
def natural? (ds : Text) : Option Nat :=
  if ds ≠ [] ∧ ds.all (fun c => c.digit?.isSome) ∧ ds.length ≤ maxNumeralDigits
      ∧ (ds.head? = some (CodePoint.scalar '0') → ds.length = 1) then
    some (digitsValue ds)
  else none

/-- The integer that a plain numeral names. -/
def plainNumeral? (t : Text) : Option Int :=
  match t with
  | .scalar '-' :: ds => (natural? ds).map fun n => -(n : Int)
  | ds => (natural? ds).map fun n => (n : Int)

/-- Whether a text starts with more than `n` digits, the first of them no zero. -/
def outruns (n : Nat) (t : Text) : Bool :=
  t.head? ≠ some (CodePoint.scalar '0') && (t.takeWhile fun c => c.digit?.isSome).length > n

/-- Whether a text starts as a plain numeral that is too long; its sign counts. -/
def oversized : Text → Bool
  | .scalar '-' :: rest => outruns (maxNumeralDigits - 1) rest
  | t => outruns maxNumeralDigits t

/-- What follows leading zeros, of which `last` is the one before `t`. -/
def afterZeros? (last : CodePoint) (t : Text) : Option Text :=
  match t with
  | [] => some [last]
  | c :: rest =>
    if c = CodePoint.scalar '0' ∨ c = CodePoint.scalar '_' then afterZeros? c rest
    else if c.digit?.isSome ∨ c = CodePoint.scalar '-' then some (c :: rest)
    else if c = CodePoint.scalar '.' then some (last :: c :: rest)
    else none

/-- A text without the zeros at its front; it must start with a digit. -/
def withoutLeadingZeros? (t : Text) : Option Text :=
  match t with
  | [] => none
  | c :: rest =>
    if c = CodePoint.scalar '0' then afterZeros? c rest
    else if c.digit?.isSome then some t
    else none

/-- A text without the zeros behind its point and the point, if only zeros are there. -/
def withoutZeroFraction (t : Text) : Text :=
  match t.splitOn '.' with
  | [whole, zeros] =>
    if zeros ≠ [] ∧ zeros.all (· = CodePoint.scalar '0') then whole else t
  | _ => t

/-- A text without its low lines, which must not stand at an end or side by side. -/
def ungrouped? (t : Text) : Option Text :=
  if (t.splitOn '_').all (· ≠ []) then some (t.filter (· ≠ CodePoint.scalar '_')) else none

/-- An unsigned numeral without what a plain one lacks. -/
def bare? (t : Text) : Option Text :=
  (withoutLeadingZeros? t).bind fun u => ungrouped? (withoutZeroFraction u)

/-- The integer that a numeral names. -/
def numeral? (t : Text) : Option Int :=
  match t.trim CodePoint.isWhiteSpace with
  | .scalar '-' :: rest => (bare? rest).bind fun u => plainNumeral? (CodePoint.scalar '-' :: u)
  | .scalar '+' :: rest => (bare? rest).bind plainNumeral?
  | rest => (bare? rest).bind plainNumeral?

end Text
end PartialBatch
