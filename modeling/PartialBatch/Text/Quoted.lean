/-
# Quoted texts

A quoted text is how messages of errors show a text: between single quotes, or between
double quotes if it holds a single quote and no double one. Inside,

| code point | written |
| --- | --- |
| the backslash, the quote in use | with a backslash before it |
| `U+000A`, `U+000D`, `U+0009` | `\n`, `\r`, `\t` |
| not printable, below `0x100` | `\xHH` |
| not printable, below `0x10000` | `\uHHHH` |
| any other that is not printable | `\UHHHHHHHH` |
| printable | as itself |

with hexadecimal digits in lower case. A quoted text is one line whatever it quotes.
Byte strings are quoted in the same way after a `b`, every byte outside printable ASCII
as `\xHH`.
-/

import PartialBatch.Text.Printable

namespace PartialBatch
namespace Text

/-- The quote that a text is put between. -/
def quoteOf (t : Text) : Char :=
  if CodePoint.scalar '\x27' ∈ t ∧ CodePoint.scalar '"' ∉ t then '"' else '\x27'

/-- One code point inside a text quoted by `quote`. -/
def quotedPoint (quote : Char) (c : CodePoint) : Text :=
  if c = CodePoint.scalar '\\' ∨ c = CodePoint.scalar quote then [CodePoint.scalar '\\', c]
  else if c = CodePoint.scalar '\n' then "\\n"
  else if c = CodePoint.scalar '\r' then "\\r"
  else if c = CodePoint.scalar '\t' then "\\t"
  else if c.isPrintable then [c]
  else if c.number < 0x100 then "\\x" ++ hex 2 c.number
  else if c.number < 0x10000 then "\\u" ++ hex 4 c.number
  else "\\U" ++ hex 8 c.number

/-- A text between quotes. -/
def quoted (t : Text) : Text :=
  let quote := quoteOf t
  (CodePoint.scalar quote :: t.flatMap (quotedPoint quote)) ++ [CodePoint.scalar quote]

/-- A byte string between quotes. -/
def quotedBytes (bytes : List UInt8) : Text :=
  let t : Text := bytes.map fun b => CodePoint.ofNumber b.toNat
  let quote := quoteOf t
  let point (c : CodePoint) : Text :=
    if c.isAscii then quotedPoint quote c else "\\x" ++ hex 2 c.number
  (CodePoint.scalar 'b' :: CodePoint.scalar quote :: t.flatMap point) ++ [CodePoint.scalar quote]

end Text
end PartialBatch
