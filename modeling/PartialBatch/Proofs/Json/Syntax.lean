/-
# The syntax of JSON

What a JSON text is, said without a reader: a tree whose leaves are the tokens as they are written,
with the white space between them.  From a tree follow its text, the value it names, how deep its
containers are inside one another, and how many digits its longest integer has.

| node | text |
| --- | --- |
| word | `null`, `true`, `false`, and beyond the standard `NaN`, `Infinity`, `-Infinity` |
| number | a sign or none, the digits before the point, then fraction and exponent if any |
| string | its pieces between quotes; a piece is a code point or an escape |
| list | its elements between brackets, with commas between them |
| object | its entries between braces, a colon behind each key |

A code point may be written in many ways: as itself, by a letter behind a backslash, or by the
hexadecimal digits of its units.  Two `\u` escapes side by side that name a pair of surrogates stand
for one character (`Piece.textOf`); nothing else about a string depends on what stands beside it.
Of two entries with one key the later value stands in the place of the earlier.
-/

import PartialBatch.Json.Reader

namespace PartialBatch
namespace Json

/-! ## Tokens -/

/-- White space, or nothing. -/
structure Blank where
  text : Text
  isBlank : ∀ c ∈ text, isSpace c = true

/-- The number of four hexadecimal digits. -/
def hexNumber? (a b c d : CodePoint) : Option Nat :=
  match a.hexDigit?, b.hexDigit?, c.hexDigit?, d.hexDigit? with
  | some a, some b, some c, some d => some (((a * 16 + b) * 16 + c) * 16 + d)
  | _, _, _, _ => none

/-- Whether a code point may stand in a string as itself. -/
def IsPlain (c : CodePoint) : Prop :=
  32 ≤ c.number ∧ c ≠ CodePoint.scalar '"' ∧ c ≠ CodePoint.scalar '\\'

/-- A piece of a string: a code point as itself, or an escape by a letter or by a number. -/
inductive Piece
  | plain (c : CodePoint) (isPlain : IsPlain c)
  | short (letter c : CodePoint) (isShort : shortEscape? letter = some c)
  | unicode (a b c d : CodePoint) (n : Nat) (isNumber : hexNumber? a b c d = some n)

namespace Piece

/-- A piece as it is written. -/
def text : Piece → Text
  | plain c _ => [c]
  | short letter _ _ => [CodePoint.scalar '\\', letter]
  | unicode a b c d _ _ => [CodePoint.scalar '\\', CodePoint.scalar 'u', a, b, c, d]

/-- The code point of a piece that stands alone. -/
def point : Piece → CodePoint
  | plain c _ => c
  | short _ c _ => c
  | unicode _ _ _ _ n _ => CodePoint.ofNumber n

/-- Whether two pieces are written as the halves of a pair of surrogates. -/
def isPair : Piece → Piece → Bool
  | unicode _ _ _ _ n _, unicode _ _ _ _ k _ =>
    (CodePoint.ofNumber n).isHighSurrogate && (CodePoint.ofNumber k).isLowSurrogate
  | _, _ => false

/-- The text that pieces stand for. -/
def textOf : List Piece → Text
  | [] => []
  | [p] => [p.point]
  | p :: q :: rest =>
    if p.isPair q then p.point.joined q.point :: textOf rest else p.point :: textOf (q :: rest)

/-- Pieces as they are written, and the closing quote. -/
def closed (ps : List Piece) : Text := ps.flatMap text ++ [CodePoint.scalar '"']

end Piece

/-- Whether a text consists of decimal digits. -/
def AllDigits (ds : Text) : Prop := ∀ c ∈ ds, c.digit?.isSome = true

/-- Whether digits can stand before the point: a zero, or some that do not start with one. -/
def IsWhole (ds : Text) : Prop :=
  ds = [CodePoint.scalar '0'] ∨ ds ≠ [] ∧ AllDigits ds ∧ ds.head? ≠ some (CodePoint.scalar '0')

/-- An exponent as it is written. -/
structure Exponent where
  letter : CodePoint
  sign : Text
  digits : Text
  isLetter : letter = CodePoint.scalar 'e' ∨ letter = CodePoint.scalar 'E'
  isSign : sign = [] ∨ sign = [CodePoint.scalar '+'] ∨ sign = [CodePoint.scalar '-']
  digits_ne_nil : digits ≠ []
  allDigits : AllDigits digits

namespace Exponent

def text (e : Exponent) : Text := e.letter :: (e.sign ++ e.digits)

/-- The number that an exponent names. -/
def value (e : Exponent) : Int :=
  if e.sign = [CodePoint.scalar '-'] then -(Text.digitsValue e.digits : Int)
  else Text.digitsValue e.digits

end Exponent

/-- A number as it is written; an empty fraction is none. -/
structure Number where
  negative : Bool
  whole : Text
  fraction : Text
  exponent : Option Exponent
  isWhole : IsWhole whole
  isFraction : AllDigits fraction

namespace Number

/-- The sign of a number. -/
def signText (negative : Bool) : Text := if negative then [CodePoint.scalar '-'] else []

/-- A fraction with its point. -/
def fractionText (fraction : Text) : Text :=
  if fraction = [] then [] else CodePoint.scalar '.' :: fraction

/-- An exponent, if there is one. -/
def exponentText (exponent : Option Exponent) : Text := (exponent.map Exponent.text).getD []

def text (x : Number) : Text :=
  signText x.negative ++ (x.whole ++ (fractionText x.fraction ++ exponentText x.exponent))

/-- The parts of a number that its value depends on. -/
def numeral (x : Number) : Numeral :=
  ⟨x.negative, x.whole, x.fraction, x.exponent.map Exponent.value⟩

/-- Whether a number is an integer by its writing. -/
def isInteger (x : Number) : Bool := x.fraction.isEmpty && x.exponent.isNone

/-- How many digits a number has, if it is an integer. -/
def digits (x : Number) : Nat := if x.isInteger then x.whole.length else 0

/-- The value of a number, however many digits it has. -/
def value (x : Number) : Value :=
  if x.isInteger then
    let n : Int := Text.digitsValue x.whole
    .int (if x.negative then -n else n)
  else
    .float (Binary64.ofDecimal x.negative (Text.digitsValue (x.whole ++ x.fraction))
      ((x.exponent.map Exponent.value).getD 0 - x.fraction.length))

end Number

/-! ## Trees -/

mutual

/-- A JSON value as it is written, without white space around it. -/
inductive Doc
  | word (w : Text) (v : Value) (isWord : (w, v) ∈ words)
  | number (x : Number)
  | string (ps : List Piece)
  | noElements (b : Blank)
  | list (b : Blank) (elements : Elements)
  | noMembers (b : Blank)
  | object (b : Blank) (members : Members)

/-- The elements of a list, up to the closing bracket. -/
inductive Elements
  | last (d : Doc) (b : Blank)
  | more (d : Doc) (b₁ b₂ : Blank) (rest : Elements)

/-- The entries of an object, from the first key up to the closing brace. -/
inductive Members
  | last (key : List Piece) (b₁ b₂ : Blank) (d : Doc) (b₃ : Blank)
  | more (key : List Piece) (b₁ b₂ : Blank) (d : Doc) (b₃ b₄ : Blank) (rest : Members)

end

/-- A key behind its opening quote, up to the value. -/
def keyText (key : List Piece) (b₁ b₂ : Blank) : Text :=
  Piece.closed key ++ (b₁.text ++ CodePoint.scalar ':' :: b₂.text)

mutual

/-- A tree as it is written. -/
def Doc.text : Doc → Text
  | .word w _ _ => w
  | .number x => x.text
  | .string ps => CodePoint.scalar '"' :: Piece.closed ps
  | .noElements b => CodePoint.scalar '[' :: (b.text ++ [CodePoint.scalar ']'])
  | .list b elements => CodePoint.scalar '[' :: (b.text ++ elements.text)
  | .noMembers b => CodePoint.scalar '\x7b' :: (b.text ++ [CodePoint.scalar '\x7d'])
  | .object b members => CodePoint.scalar '\x7b' :: (b.text ++ members.text)

def Elements.text : Elements → Text
  | .last d b => d.text ++ (b.text ++ [CodePoint.scalar ']'])
  | .more d b₁ b₂ rest =>
    d.text ++ (b₁.text ++ CodePoint.scalar ',' :: (b₂.text ++ rest.text))

def Members.text : Members → Text
  | .last key b₁ b₂ d b₃ =>
    CodePoint.scalar '"' :: (keyText key b₁ b₂ ++
      (d.text ++ (b₃.text ++ [CodePoint.scalar '\x7d'])))
  | .more key b₁ b₂ d b₃ b₄ rest =>
    CodePoint.scalar '"' :: (keyText key b₁ b₂ ++
      (d.text ++ (b₃.text ++ CodePoint.scalar ',' :: (b₄.text ++ rest.text))))

end

mutual

/-- The value that a tree names. -/
def Doc.value : Doc → Value
  | .word _ v _ => v
  | .number x => x.value
  | .string ps => .text (Piece.textOf ps)
  | .noElements _ => .list []
  | .list _ elements => .list elements.values
  | .noMembers _ => .object []
  | .object _ members => .object (members.entries [])

def Elements.values : Elements → List Value
  | .last d _ => [d.value]
  | .more d _ _ rest => d.value :: rest.values

/-- Entries after those that are read before. -/
def Members.entries (es : Entries) : Members → Entries
  | .last key _ _ d _ => es.put (Piece.textOf key) d.value
  | .more key _ _ d _ _ rest => rest.entries (es.put (Piece.textOf key) d.value)

end

mutual

/-- How many containers are open at once in a tree, at most. -/
def Doc.depth : Doc → Nat
  | .noElements _ | .noMembers _ => 1
  | .list _ elements => elements.depth + 1
  | .object _ members => members.depth + 1
  | _ => 0

def Elements.depth : Elements → Nat
  | .last d _ => d.depth
  | .more d _ _ rest => max d.depth rest.depth

def Members.depth : Members → Nat
  | .last _ _ _ d _ => d.depth
  | .more _ _ _ d _ _ rest => max d.depth rest.depth

end

mutual

/-- How many digits an integer of a tree has, at most. -/
def Doc.digits : Doc → Nat
  | .number x => x.digits
  | .list _ elements => elements.digits
  | .object _ members => members.digits
  | _ => 0

def Elements.digits : Elements → Nat
  | .last d _ => d.digits
  | .more d _ _ rest => max d.digits rest.digits

def Members.digits : Members → Nat
  | .last _ _ _ d _ => d.digits
  | .more _ _ _ d _ _ rest => max d.digits rest.digits

end

/-- A whole JSON text: a tree with white space before and behind it. -/
structure Document where
  before : Blank
  doc : Doc
  after : Blank

namespace Document

def text (d : Document) : Text := d.before.text ++ (d.doc.text ++ d.after.text)

/-- The value that a JSON text names. -/
def value (d : Document) : Value := d.doc.value

/-- Whether reading a JSON text stays within the limits on depth and digits. -/
def Fits (d : Document) : Prop := d.doc.depth ≤ maxDepth ∧ d.doc.digits ≤ maxDigits

end Document

/-! ## Reading -/

/-- Whether a reader gives a result and leaves a rest. -/
def Gives {α : Type} {s : Text} (r : Except Halt (Step α s)) (a : α) (rest : Text) : Prop :=
  ∃ h, r = .ok ⟨a, rest, h⟩

end Json
end PartialBatch
