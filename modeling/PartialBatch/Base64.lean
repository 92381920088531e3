/-
# Base64

Byte strings as texts of four letters for three bytes. `encode` writes the standard form
with padding. `decode` reads leniently, letter by letter, at a place `0`, `1`, `2` or `3`
of the current group:

| character | effect |
| --- | --- |
| letter | six more bits; from the second letter of a group on, one byte is complete |
| `=` at place 2 or 3 | counted; decoding ends if place and count come to 4 |
| `=` at place 0 or 1, other ASCII | skipped |
| not ASCII | the text is refused |

At the end of the text a group must not be open: one letter in it can never be right, two
or three lack padding. A letter starts the count of pads anew.
-/

import PartialBatch.Text.Basic

namespace PartialBatch
namespace Base64

/-- Why a text is not decoded. -/
inductive Fault
  /-- A character is not ASCII. -/
  | notAscii
  /-- The last group holds a single letter; the text has `letters` of them. -/
  | lone (letters : Nat)
  /-- The last group lacks padding. -/
  | padding
  deriving DecidableEq, Repr

/-- The wording of a fault. -/
def Fault.text : Fault → Text
  | notAscii => "string argument should contain only ASCII characters"
  | lone letters =>
    "Invalid base64-encoded string: number of data characters (" ++ Text.ofNat letters ++
      ") cannot be 1 more than a multiple of 4"
  | padding => "Incorrect padding"

/-- The six bits of a letter. -/
def bits? (c : CodePoint) : Option Nat :=
  let n := c.number
  if 65 ≤ n ∧ n ≤ 90 then some (n - 65)
  else if 97 ≤ n ∧ n ≤ 122 then some (n - 71)
  else if 48 ≤ n ∧ n ≤ 57 then some (n + 4)
  else if n = 43 then some 62
  else if n = 47 then some 63
  else none

/-- The letter of six bits. -/
def letter (n : Nat) : CodePoint :=
  CodePoint.ofNumber
    (if n < 26 then n + 65 else if n < 52 then n + 71 else if n < 62 then n - 4
     else if n = 62 then 43 else 47)

/-- The padded base64 text of a byte string. -/
def encode : List UInt8 → Text
  | [] => []
  | [a] =>
    let a := a.toNat
    [letter (a / 4), letter (a % 4 * 16), '=', '=']
  | [a, b] =>
    let (a, b) := (a.toNat, b.toNat)
    [letter (a / 4), letter (a % 4 * 16 + b / 16), letter (b % 16 * 4), '=']
  | a :: b :: c :: rest =>
    let (x, y, z) := (a.toNat, b.toNat, c.toNat)
    letter (x / 4) :: letter (x % 4 * 16 + y / 16) :: letter (y % 16 * 4 + z / 64) ::
      letter (z % 64) :: encode rest

/-- Where decoding stands: the place in the group, the bits not yet in a byte, the pads and
the letters counted. -/
structure State where
  place : Fin 4
  left : Nat
  pads : Nat
  letters : Nat
  deriving DecidableEq, Repr

/-- Before the first character. -/
def State.start : State := ⟨0, 0, 0, 0⟩

/-- The state after a letter, and the byte that it completes. -/
def State.add (st : State) (bits : Nat) : Option UInt8 × State :=
  match st.place with
  | 0 => (none, ⟨1, bits, 0, st.letters + 1⟩)
  | 1 => (some (UInt8.ofNat (st.left * 4 + bits / 16)), ⟨2, bits % 16, 0, st.letters + 1⟩)
  | 2 => (some (UInt8.ofNat (st.left * 16 + bits / 4)), ⟨3, bits % 4, 0, st.letters + 1⟩)
  | 3 => (some (UInt8.ofNat (st.left * 64 + bits)), ⟨0, 0, 0, st.letters + 1⟩)

/-- The bytes of a text from a state on. -/
def decodeFrom (st : State) : Text → Except Fault (List UInt8)
  | [] =>
    match st.place with
    | 0 => .ok []
    | 1 => .error (.lone st.letters)
    | _ => .error .padding
  | c :: rest =>
    if c = CodePoint.scalar '=' then
      if st.place.val < 2 then decodeFrom st rest
      else if st.place.val + (st.pads + 1) ≥ 4 then .ok []
      else decodeFrom { st with pads := st.pads + 1 } rest
    else match bits? c with
      | none => decodeFrom st rest
      | some bits =>
        match st.add bits with
        | (none, st') => decodeFrom st' rest
        | (some byte, st') => (decodeFrom st' rest).map (byte :: ·)

/-- The bytes that a base64 text holds. -/
def decode (t : Text) : Except Fault (List UInt8) :=
  if t.all CodePoint.isAscii then decodeFrom State.start t else .error .notAscii

end Base64
end PartialBatch
