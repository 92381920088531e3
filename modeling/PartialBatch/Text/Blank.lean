/-
# Blank characters

Two classes of blanks are in use, and they differ.

| class | used for | members beside `U+0009`–`U+000D` and the space |
| --- | --- | --- |
| `isBlank` | settings from the environment | the separators below and `U+001C`–`U+001F` |
| `isWhiteSpace` | numbers given as text | the separators below |

The separators are `U+0085`, `U+00A0`, `U+1680`, `U+2000`–`U+200A`, `U+2028`, `U+2029`,
`U+202F`, `U+205F` and `U+3000`. `isWhiteSpace` is the Unicode property `White_Space`.
-/

import PartialBatch.Text.Basic

namespace PartialBatch
namespace CodePoint

/-- The code points with the Unicode property `White_Space`. -/
def isWhiteSpace (c : CodePoint) : Bool :=
  let n := c.number
  (9 ≤ n && n ≤ 13) || n = 32 || n = 0x85 || n = 0xA0 || n = 0x1680 ||
    (0x2000 ≤ n && n ≤ 0x200A) || n = 0x2028 || n = 0x2029 || n = 0x202F || n = 0x205F ||
    n = 0x3000

/-- The code points dropped around a setting: white space and the four ASCII information
separators. -/
def isBlank (c : CodePoint) : Bool :=
  c.isWhiteSpace || (0x1C ≤ c.number && c.number ≤ 0x1F)

end CodePoint

namespace Text

/-- A text without blanks around it. -/
def strip (t : Text) : Text := t.trim CodePoint.isBlank

end Text
end PartialBatch
