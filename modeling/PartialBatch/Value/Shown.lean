/-
# Values in messages

How messages of errors show a value: `None`, `True`, `False`, numbers in decimal, texts
quoted, `[a, b]` for lists and `{'k': v}` for objects. `plain` is the same except that a
text at the top is written without quotes.

Not every value can be shown:

| value | stands in the way |
| --- | --- |
| `int n` | more digits than a number may have in decimal |
| `list vs`, `object es` | an element or entry, or being inside too many others |

What comes first in the order of writing is what is told of it.
-/

import PartialBatch.Value.Basic
import PartialBatch.Number.Shortest
import PartialBatch.Text.Quoted

namespace PartialBatch

/-- Why a value cannot be shown. -/
inductive ShowFault
  /-- An integer has too many digits. -/
  | digits
  /-- A list or an object is inside too many others. -/
  | depth
  deriving DecidableEq, Repr

namespace Value

/-- The most lists and objects that may be inside one another where a value is shown. -/
def maxDepth : Nat := 990

mutual

/-- A value as messages show it, with so many levels of lists and objects. -/
def shownWithin (levels : Nat) : Value → Except ShowFault Text
  | null => .ok "None"
  | bool true => .ok "True"
  | bool false => .ok "False"
  | int n =>
    if (Text.ofNat n.natAbs).length ≤ Text.maxDigits then .ok (Text.ofInt n) else .error .digits
  | float x => .ok x.text
  | text t => .ok t.quoted
  | bytes b => .ok (Text.quotedBytes b)
  | list vs =>
    if levels = 0 then .error .depth
    else do
      let ts ← shownList (levels - 1) vs
      pure ("[" ++ Text.join ", " ts ++ "]")
  | object es =>
    if levels = 0 then .error .depth
    else do
      let ts ← shownEntries (levels - 1) es
      pure ("\x7b" ++ Text.join ", " ts ++ "\x7d")

/-- The values of a list, each as messages show it. -/
def shownList (levels : Nat) : List Value → Except ShowFault (List Text)
  | [] => .ok []
  | v :: vs => do
    let t ← shownWithin levels v
    let ts ← shownList levels vs
    pure (t :: ts)

/-- The entries of an object, each as messages show it. -/
def shownEntries (levels : Nat) : List (Text × Value) → Except ShowFault (List Text)
  | [] => .ok []
  | (k, v) :: es => do
    let t ← shownWithin levels v
    let ts ← shownEntries levels es
    pure ((k.quoted ++ ": " ++ t) :: ts)

end

/-- A value as messages show it. -/
def shown (v : Value) : Except ShowFault Text := v.shownWithin maxDepth

/-- A value as a message of its own. -/
def plain : Value → Except ShowFault Text
  | text t => .ok t
  | v => shown v

end Value
end PartialBatch
