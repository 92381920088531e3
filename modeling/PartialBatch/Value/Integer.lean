/-
# Values that name an integer

A count may be given as an integer, and also as another value that names one exactly.

| value | names |
| --- | --- |
| `int n` | `n` |
| `bool b` | one or zero |
| `float x`, whole, `-2^63 < x < 2^63` | the integer it equals |
| `text t` | what it names as a numeral |

A text that holds a lone surrogate is refused before anything else, and so is one that
starts as a plain numeral that is too long.
-/

import PartialBatch.Text.Numeral
import PartialBatch.Value.Basic

namespace PartialBatch

/-- Why a value names no integer. -/
inductive IntegerFault
  /-- The value is of another type. -/
  | type
  /-- The text is no numeral. -/
  | numeral
  /-- The floating point number has a fractional part. -/
  | fractional
  /-- The floating point number is infinite or NaN. -/
  | notFinite
  /-- The floating point number or the numeral is too large. -/
  | size
  /-- The text holds a lone surrogate. -/
  | surrogate
  deriving DecidableEq, Repr

namespace Value

/-- The integer that a value names. -/
def integer : Value → Except IntegerFault Int
  | int n => .ok n
  | bool b => .ok (if b then 1 else 0)
  | float x =>
    match x with
    | .finite .. =>
      match x.toInt? with
      | none => .error .fractional
      | some n => if n.natAbs < Nat.pow 2 63 then .ok n else .error .size
    | _ => .error .notFinite
  | text t =>
    if t.any CodePoint.isSurrogate then .error .surrogate
    else if t.oversized then .error .size
    else match t.numeral? with
      | none => .error .numeral
      | some n => .ok n
  | _ => .error .type

end Value
end PartialBatch
