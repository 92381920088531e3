/-
# Texts

A text is a list of code points. Besides the Unicode characters it may hold lone
surrogates, because a JSON text can spell them (`\ud800`) and a message body, a queue
name or an object key may then carry one.

| code point | number | length in UTF-16 |
| --- | --- | ---: |
| `scalar c` | `c.val` | 1 or 2 |
| `surrogate i`, `i < 2048` | `0xD800 + i` | 1 |

Texts are cut, sorted and counted by code point. A `String` literal stands for the text
of its characters, which never holds a surrogate.
-/

namespace PartialBatch

/-- A code point: a Unicode character, or one of the 2048 lone surrogates. -/
inductive CodePoint
  | scalar (c : Char)
  | surrogate (i : Fin 2048)
  deriving DecidableEq, Repr, Inhabited

namespace CodePoint

/-- The number of a code point. -/
def number : CodePoint → Nat
  | scalar c => c.toNat
  | surrogate i => 0xD800 + i.val

/-- The code point of a number below `0x110000`; `U+FFFD` for any other number. -/
def ofNumber (n : Nat) : CodePoint :=
  if h : n.isValidChar then scalar (Char.ofNatAux n h)
  else if h : 0xD800 ≤ n ∧ n < 0xE000 then surrogate ⟨n - 0xD800, by omega⟩
  else scalar '\ufffd'

/-- A code point is that of its number. -/
theorem ofNumber_number (c : CodePoint) : ofNumber c.number = c := by
  unfold ofNumber
  cases c with
  | scalar c =>
    have hvalid : (number (scalar c)).isValidChar := c.valid
    rw [dif_pos hvalid]
    rfl
  | surrogate i =>
    have hnumber : number (surrogate i) = 0xD800 + i.val := rfl
    have hi := i.isLt
    have hinvalid : ¬(number (surrogate i)).isValidChar := by
      rw [hnumber, Nat.isValidChar]
      omega
    rw [dif_neg hinvalid, dif_pos (by omega)]
    exact congrArg surrogate (Fin.ext (by simp [hnumber]))

/-- Whether a code point is a lone surrogate. -/
def isSurrogate : CodePoint → Bool
  | scalar _ => false
  | surrogate _ => true

/-- A surrogate that opens a pair. -/
def isHighSurrogate (c : CodePoint) : Bool := 0xD800 ≤ c.number && c.number < 0xDC00

/-- A surrogate that closes a pair. -/
def isLowSurrogate (c : CodePoint) : Bool := 0xDC00 ≤ c.number && c.number < 0xE000

/-- The code point that a high and a low surrogate spell together. -/
def joined (high low : CodePoint) : CodePoint :=
  ofNumber (0x10000 + (high.number - 0xD800) * 1024 + (low.number - 0xDC00))

/-- The UTF-16 units of a code point. -/
def units (c : CodePoint) : List Nat :=
  if c.number < 0x10000 then [c.number]
  else [0xD800 + (c.number - 0x10000) / 1024, 0xDC00 + (c.number - 0x10000) % 1024]

/-- The value of an ASCII decimal digit. -/
def digit? (c : CodePoint) : Option Nat :=
  if 48 ≤ c.number ∧ c.number ≤ 57 then some (c.number - 48) else none

/-- The value of an ASCII hexadecimal digit, in either case. -/
def hexDigit? (c : CodePoint) : Option Nat :=
  if 48 ≤ c.number ∧ c.number ≤ 57 then some (c.number - 48)
  else if 97 ≤ c.number ∧ c.number ≤ 102 then some (c.number - 87)
  else if 65 ≤ c.number ∧ c.number ≤ 70 then some (c.number - 55)
  else none

/-- Whether a code point is ASCII. -/
def isAscii (c : CodePoint) : Bool := c.number < 128

end CodePoint

/-- A text, in reading order. -/
abbrev Text := List CodePoint

instance : Coe Char CodePoint := ⟨CodePoint.scalar⟩

namespace Text

/-- The text of a string's characters. -/
def ofString (s : String) : Text := s.toList.map CodePoint.scalar

instance : Coe String Text := ⟨ofString⟩

/-- The characters of a text; a lone surrogate is replaced by `U+FFFD`. -/
def toString (t : Text) : String :=
  String.ofList (t.map fun
    | .scalar c => c
    | .surrogate _ => '\ufffd')

/-- A natural number in decimal. -/
def ofNat (n : Nat) : Text := (Nat.toDigits 10 n).map CodePoint.scalar

/-- The most digits of an integer where it is put into decimal, or read from it. -/
def maxDigits : Nat := 4300

/-- An integer in decimal, with a minus sign if it is negative. -/
def ofInt : Int → Text
  | .ofNat n => ofNat n
  | .negSucc n => CodePoint.scalar '-' :: ofNat (n + 1)

/-- The `width` lowest hexadecimal digits of a number, in lower case. -/
def hex (width n : Nat) : Text :=
  match width with
  | 0 => []
  | w + 1 => hex w (n / 16) ++ [CodePoint.scalar (Nat.digitChar (n % 16))]

/-- The texts one after another, with a separator between neighbours. -/
def join (separator : Text) : List Text → Text
  | [] => []
  | [t] => t
  | t :: rest => t ++ separator ++ join separator rest

/-- The parts of a text between the occurrences of a separator; one part more than there
are separators. -/
def splitOn (separator : CodePoint) : Text → List Text
  | [] => [[]]
  | c :: rest =>
    if c = separator then [] :: splitOn separator rest
    else match splitOn separator rest with
      | [] => [[c]]
      | part :: parts => (c :: part) :: parts

/-- Whether a part occurs in a text. -/
def holds (t part : Text) : Bool :=
  match t with
  | [] => part.isEmpty
  | c :: rest => part.isPrefixOf (c :: rest) || holds rest part

/-- A text without the code points of a class at its two ends. -/
def trim (drop : CodePoint → Bool) (t : Text) : Text :=
  ((t.dropWhile drop).reverse.dropWhile drop).reverse

/-- Whether one text comes before another or equals it, by the numbers of the code
points. -/
def le : Text → Text → Bool
  | [], _ => true
  | _ :: _, [] => false
  | a :: s, b :: t => if a.number = b.number then le s t else a.number < b.number

/-- The texts in ascending order; equal texts keep their places. -/
def sort (ts : List Text) : List Text := ts.mergeSort le

/-- The number that a run of decimal digits names; digits are read from the left. -/
def digitsValue (t : Text) : Nat := t.foldl (fun n c => 10 * n + (c.digit?.getD 0)) 0

end Text

end PartialBatch
