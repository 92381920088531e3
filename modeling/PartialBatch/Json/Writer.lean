/-
# Writing JSON

The JSON text of a value: `", "` between entries, `": "` after keys, and ASCII only. Inside
a string the quote, the backslash and the control characters are escaped, by a letter where
JSON has one; every code point outside printable ASCII is written as the `\uHHHH` of its
UTF-16 units, so that two surrogates stand for a character beyond `U+FFFF`. Floating point
numbers are written as their shortest decimals, the others as `Infinity`, `-Infinity` and
`NaN`. A byte string is written as the string that messages show for it.
-/

import PartialBatch.Value.Shown

namespace PartialBatch
namespace Json

/-- One code point inside a JSON string. -/
def escaped (c : CodePoint) : Text :=
  if c = CodePoint.scalar '"' then "\\\""
  else if c = CodePoint.scalar '\\' then "\\\\"
  else if c = CodePoint.scalar '\n' then "\\n"
  else if c = CodePoint.scalar '\r' then "\\r"
  else if c = CodePoint.scalar '\t' then "\\t"
  else if c.number = 8 then "\\b"
  else if c.number = 12 then "\\f"
  else if 32 ≤ c.number ∧ c.number < 127 then [c]
  else c.units.flatMap fun u => "\\u" ++ Text.hex 4 u

/-- A JSON string. -/
def string (t : Text) : Text := "\"" ++ t.flatMap escaped ++ "\""

/-- A floating point number. -/
def number (x : Binary64) : Text :=
  match x with
  | .nan => "NaN"
  | .infinite negative => if negative then "-Infinity" else "Infinity"
  | .finite .. => x.text

mutual

/-- The JSON text of a value. -/
def write : Value → Text
  | .null => "null"
  | .bool true => "true"
  | .bool false => "false"
  | .int n => Text.ofInt n
  | .float x => number x
  | .text t => string t
  | .bytes b => string (Text.quotedBytes b)
  | .list vs => "[" ++ Text.join ", " (writeList vs) ++ "]"
  | .object es => "\x7b" ++ Text.join ", " (writeEntries es) ++ "\x7d"

/-- The JSON texts of the values of a list. -/
def writeList : List Value → List Text
  | [] => []
  | v :: vs => write v :: writeList vs

/-- The JSON texts of the entries of an object. -/
def writeEntries : List (Text × Value) → List Text
  | [] => []
  | (k, v) :: es => (string k ++ ": " ++ write v) :: writeEntries es

end

end Json
end PartialBatch
