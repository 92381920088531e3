/-
# Faults of JSON texts

Why a text is not read as JSON, and where. A place is counted from zero in code points, its
line from one by the line feeds before it, its column from one after the last of them.

| fault | place |
| --- | --- |
| `byteOrderMark` | the start of the text |
| `value` | where a value was due |
| `propertyName`, `colon`, `comma` | where the token was due, after white space |
| `unterminated` | the opening quote |
| `control` | the control character |
| `escape` | the backslash |
| `hex` | the `u` after the backslash |
| `extra` | the first token after the value |

An integer of more than 4300 digits is refused apart from these, without a place, and so are
lists and objects inside one another to a depth of more than 990.
-/

import PartialBatch.Text.Basic

namespace PartialBatch
namespace Json

/-- What is wrong at a place of a text. -/
inductive Trouble
  | byteOrderMark
  | value
  | propertyName
  | colon
  | comma
  | unterminated
  | control
  | escape
  | hex
  | extra
  deriving DecidableEq, Repr

/-- The wording of a trouble. -/
def Trouble.text : Trouble → Text
  | byteOrderMark => "Unexpected UTF-8 BOM (decode using utf-8-sig)"
  | value => "Expecting value"
  | propertyName => "Expecting property name enclosed in double quotes"
  | colon => "Expecting \x27:\x27 delimiter"
  | comma => "Expecting \x27,\x27 delimiter"
  | unterminated => "Unterminated string starting at"
  | control => "Invalid control character at"
  | escape => "Invalid \\escape"
  | hex => "Invalid \\uXXXX escape"
  | extra => "Extra data"

/-- What may hold other values. -/
inductive Container
  | list
  | object
  deriving DecidableEq, Repr

/-- The name of a container in JSON. -/
def Container.name : Container → Text
  | list => "array"
  | object => "object"

/-- Why a text is not read. -/
inductive Fault
  /-- The text is not JSON, for the trouble at its code point number `offset`. -/
  | malformed (trouble : Trouble) (line column offset : Nat)
  /-- The text holds an integer of too many digits. -/
  | digits (count : Nat)
  /-- The text opens a container inside too many others. -/
  | depth (container : Container)
  deriving DecidableEq, Repr

/-- The most digits that an integer may have. -/
def maxDigits : Nat := Text.maxDigits

/-- The most containers that may be open at once. -/
def maxDepth : Nat := 990

/-- The wording of a fault. -/
def Fault.text : Fault → Text
  | malformed trouble line column offset =>
    trouble.text ++ ": line " ++ Text.ofNat line ++ " column " ++ Text.ofNat column ++
      " (char " ++ Text.ofNat offset ++ ")"
  | digits count =>
    "Exceeds the limit (" ++ Text.ofNat maxDigits ++
      " digits) for integer string conversion: value has " ++ Text.ofNat count ++
      " digits; use sys.set_int_max_str_digits() to increase the limit"
  | depth container =>
    "maximum recursion depth exceeded while decoding a JSON " ++ container.name ++
      " from a unicode string"

/-- The fault for a trouble found where `rest` is what is left of `whole`. -/
def Fault.at (whole : Text) (trouble : Trouble) (rest : Text) : Fault :=
  let before := whole.take (whole.length - rest.length)
  let newline := CodePoint.scalar '\n'
  malformed trouble (before.count newline + 1)
    ((before.reverse.takeWhile (· ≠ newline)).length + 1) before.length

end Json
end PartialBatch
