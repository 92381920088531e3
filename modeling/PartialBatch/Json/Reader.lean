/-
# Reading JSON

The value that a JSON text names, or the first fault in it from the left. White space is
the space and `U+0009`, `U+000A`, `U+000D`. Beyond the standard,

* `NaN`, `Infinity` and `-Infinity` are values;
* a `\u` escape may name a lone surrogate, and two that form a pair name one character;
* of two entries with one key the value of the later stands in the place of the earlier.

A number without fraction and exponent is an integer, any other a binary64 number. Four
hexadecimal digits must follow a `\u`, and the text must go on behind them.

Every reader returns what is left of the text, which is shorter than what it was given; so
reading ends.
-/

import PartialBatch.Json.Fault
import PartialBatch.Value.Basic

namespace PartialBatch
namespace Json

/-- Why reading stopped: a trouble with what was left of the text there, an integer of too
many digits, or a container too deep. -/
inductive Halt
  | trouble (what : Trouble) (rest : Text)
  | digits (count : Nat)
  | depth (container : Container)
  deriving DecidableEq, Repr

/-- A result read off the front of a text, and what is left. -/
structure Step (α : Type) (s : Text) where
  result : α
  rest : Text
  shorter : rest.length < s.length

/-- The white space of JSON. -/
def isSpace (c : CodePoint) : Bool :=
  c.number = 32 || c.number = 9 || c.number = 10 || c.number = 13

/-- A text from its first code point that is no white space. -/
def skip (s : Text) : Text := s.dropWhile isSpace

theorem length_skip_le (s : Text) : (skip s).length ≤ s.length :=
  (List.dropWhile_sublist isSpace).length_le

/-! ## Strings -/

/-- The code point that a letter after a backslash stands for. -/
def shortEscape? (c : CodePoint) : Option CodePoint :=
  if c = CodePoint.scalar '"' ∨ c = CodePoint.scalar '\\' ∨ c = CodePoint.scalar '/' then some c
  else if c = CodePoint.scalar 'b' then some (CodePoint.ofNumber 8)
  else if c = CodePoint.scalar 'f' then some (CodePoint.ofNumber 12)
  else if c = CodePoint.scalar 'n' then some (CodePoint.scalar '\n')
  else if c = CodePoint.scalar 'r' then some (CodePoint.scalar '\r')
  else if c = CodePoint.scalar 't' then some (CodePoint.scalar '\t')
  else none

/-- The number of four hexadecimal digits that do not end the text. -/
def hex4? : (s : Text) → Option (Step Nat s)
  | a :: b :: c :: d :: e :: rest =>
    match a.hexDigit?, b.hexDigit?, c.hexDigit?, d.hexDigit? with
    | some a, some b, some c, some d =>
      some ⟨((a * 16 + b) * 16 + c) * 16 + d, e :: rest, by simp only [List.length_cons]; omega⟩
    | _, _, _, _ => none
  | _ => none

/-- The second half of a pair that starts with the surrogate `high`: the joined character
if a low surrogate follows, and `high` alone if anything else does. -/
def pair (high : CodePoint) (s : Text) :
    Except Halt (CodePoint × { r : Text // r.length ≤ s.length }) :=
  match s with
  | .scalar '\\' :: .scalar 'u' :: more =>
    match hex4? more with
    | none => .error (.trouble .hex (CodePoint.scalar 'u' :: more))
    | some ⟨n, rest, h⟩ =>
      if (CodePoint.ofNumber n).isLowSurrogate then
        .ok (high.joined (CodePoint.ofNumber n), ⟨rest, by simp only [List.length_cons]; omega⟩)
      else .ok (high, ⟨_, Nat.le_refl _⟩)
  | s => .ok (high, ⟨s, Nat.le_refl _⟩)

/-- The code point that an escape stands for, from the text behind the backslash. `start`
is the text from the opening quote on. -/
def escape (start s : Text) : Except Halt (Step CodePoint s) :=
  match s with
  | [] => .error (.trouble .unterminated start)
  | .scalar 'u' :: more =>
    match hex4? more with
    | none => .error (.trouble .hex (CodePoint.scalar 'u' :: more))
    | some ⟨n, rest, h⟩ =>
      if (CodePoint.ofNumber n).isHighSurrogate then
        match pair (CodePoint.ofNumber n) rest with
        | .error e => .error e
        | .ok (c, ⟨r, hr⟩) => .ok ⟨c, r, by simp only [List.length_cons]; omega⟩
      else .ok ⟨CodePoint.ofNumber n, rest, by simp only [List.length_cons]; omega⟩
  | c :: more =>
    match shortEscape? c with
    | some d => .ok ⟨d, more, by simp⟩
    | none => .error (.trouble .escape (CodePoint.scalar '\\' :: c :: more))

/-- A string, from the text behind its opening quote. `start` is the text from that quote
on. -/
def stringBody (start s : Text) : Except Halt (Step Text s) :=
  match s with
  | [] => .error (.trouble .unterminated start)
  | .scalar '"' :: rest => .ok ⟨[], rest, by simp⟩
  | .scalar '\\' :: rest =>
    match escape start rest with
    | .error e => .error e
    | .ok ⟨c, rest', h⟩ =>
      match stringBody start rest' with
      | .error e => .error e
      | .ok ⟨t, r, h'⟩ => .ok ⟨c :: t, r, by simp only [List.length_cons]; omega⟩
  | c :: rest =>
    if c.number < 32 then .error (.trouble .control (c :: rest))
    else
      match stringBody start rest with
      | .error e => .error e
      | .ok ⟨t, r, h⟩ => .ok ⟨c :: t, r, by simp only [List.length_cons]; omega⟩
termination_by s.length

/-! ## Numbers -/

/-- A number as it is written. -/
structure Numeral where
  negative : Bool
  whole : Text
  fraction : Text
  exponent : Option Int
  deriving DecidableEq, Repr

/-- The digits at the front of a text, and what is left. -/
def takeDigits (s : Text) : Text × Text := s.span fun c => c.digit?.isSome

/-- The digits before the point: a zero, or a run that does not start with one. -/
def whole? (s : Text) : Option (Text × Text) :=
  match s with
  | .scalar '0' :: rest => some ([CodePoint.scalar '0'], rest)
  | _ =>
    match takeDigits s with
    | ([], _) => none
    | (ds, rest) => some (ds, rest)

/-- The digits behind the point, if a point with digits follows. -/
def fraction (s : Text) : Text × Text :=
  match s with
  | .scalar '.' :: rest =>
    match takeDigits rest with
    | ([], _) => ([], s)
    | (ds, rest') => (ds, rest')
  | _ => ([], s)

/-- The exponent, if one follows. -/
def exponent? (s : Text) : Option Int × Text :=
  let digits (negative : Bool) (t : Text) : Option Int × Text :=
    match takeDigits t with
    | ([], _) => (none, s)
    | (ds, rest) =>
      let n : Int := Text.digitsValue ds
      (some (if negative then -n else n), rest)
  match s with
  | .scalar 'e' :: .scalar '-' :: rest => digits true rest
  | .scalar 'E' :: .scalar '-' :: rest => digits true rest
  | .scalar 'e' :: .scalar '+' :: rest => digits false rest
  | .scalar 'E' :: .scalar '+' :: rest => digits false rest
  | .scalar 'e' :: rest => digits false rest
  | .scalar 'E' :: rest => digits false rest
  | _ => (none, s)

/-- The number at the front of a text, and what is left. -/
def numeral? (s : Text) : Option (Numeral × Text) :=
  let (negative, s) := match s with
    | .scalar '-' :: rest => (true, rest)
    | _ => (false, s)
  match whole? s with
  | none => none
  | some (ds, rest) =>
    let (fs, rest) := fraction rest
    let (e, rest) := exponent? rest
    some (⟨negative, ds, fs, e⟩, rest)

/-- The value of a number. -/
def Numeral.value (x : Numeral) : Except Halt Value :=
  if x.fraction = [] ∧ x.exponent = none then
    if x.whole.length > maxDigits then .error (.digits x.whole.length)
    else
      let n : Int := Text.digitsValue x.whole
      .ok (.int (if x.negative then -n else n))
  else
    .ok (.float (Binary64.ofDecimal x.negative (Text.digitsValue (x.whole ++ x.fraction))
      (x.exponent.getD 0 - x.fraction.length)))

/-! ## Values -/

/-- The words that are values, and the values. -/
def words : List (Text × Value) :=
  [("null", .null), ("true", .bool true), ("false", .bool false), ("NaN", .float .nan),
    ("Infinity", .float (.infinite false)), ("-Infinity", .float (.infinite true))]

/-- A word or a number at the front of a text. -/
def atom (s : Text) : Except Halt (Step Value s) :=
  match words.find? fun w => w.1.isPrefixOf s with
  | some (w, v) =>
    if h : (s.drop w.length).length < s.length then .ok ⟨v, s.drop w.length, h⟩
    else .error (.trouble .value s)
  | none =>
    match numeral? s with
    | none => .error (.trouble .value s)
    | some (x, rest) =>
      match x.value with
      | .error e => .error e
      | .ok v =>
        if h : rest.length < s.length then .ok ⟨v, rest, h⟩ else .error (.trouble .value s)

mutual

/-- The value at the front of a text, with `room` for containers inside one another. -/
def value (room : Nat) (s : Text) : Except Halt (Step Value s) :=
  match s with
  | .scalar '"' :: rest =>
    match stringBody (CodePoint.scalar '"' :: rest) rest with
    | .error e => .error e
    | .ok ⟨t, r, h⟩ => .ok ⟨.text t, r, by simp only [List.length_cons]; omega⟩
  | .scalar '[' :: rest =>
    if room = 0 then .error (.depth .list) else
    match hs : skip rest with
    | .scalar ']' :: r =>
      .ok ⟨.list [], r, by
        have := length_skip_le rest
        simp only [hs, List.length_cons] at this ⊢
        omega⟩
    | s' =>
      match elements (room - 1) s' with
      | .error e => .error e
      | .ok ⟨vs, r, h⟩ =>
        .ok ⟨.list vs, r, by
          have := length_skip_le rest
          simp only [hs, List.length_cons] at this ⊢
          omega⟩
  | .scalar '\x7b' :: rest =>
    if room = 0 then .error (.depth .object) else
    match hs : skip rest with
    | .scalar '\x7d' :: r =>
      .ok ⟨.object [], r, by
        have := length_skip_le rest
        simp only [hs, List.length_cons] at this ⊢
        omega⟩
    | s' =>
      match members (room - 1) [] s' with
      | .error e => .error e
      | .ok ⟨es, r, h⟩ =>
        .ok ⟨.object es, r, by
          have := length_skip_le rest
          simp only [hs, List.length_cons] at this ⊢
          omega⟩
  | s => atom s
termination_by 2 * s.length
decreasing_by
  all_goals
    have := length_skip_le rest
    simp only [hs, List.length_cons] at this ⊢
    omega

/-- The elements of a list, from the first one up to the closing bracket. -/
def elements (room : Nat) (s : Text) : Except Halt (Step (List Value) s) :=
  match value room s with
  | .error e => .error e
  | .ok ⟨v, rest, h⟩ =>
    match hs : skip rest with
    | .scalar ']' :: r =>
      .ok ⟨[v], r, by
        have := length_skip_le rest
        simp only [hs, List.length_cons] at this
        omega⟩
    | .scalar ',' :: r =>
      match elements room (skip r) with
      | .error e => .error e
      | .ok ⟨vs, r', h'⟩ =>
        .ok ⟨v :: vs, r', by
          have := length_skip_le rest
          have := length_skip_le r
          simp only [hs, List.length_cons] at *
          omega⟩
    | s' => .error (.trouble .comma s')
termination_by 2 * s.length + 1
decreasing_by
  · omega
  · have := length_skip_le rest
    have := length_skip_le r
    simp only [hs, List.length_cons] at *
    omega

/-- The entries of an object, from the first key up to the closing brace; `es` are those
read before. -/
def members (room : Nat) (es : Entries) (s : Text) : Except Halt (Step Entries s) :=
  match s with
  | .scalar '"' :: s₁ =>
    match stringBody (CodePoint.scalar '"' :: s₁) s₁ with
    | .error e => .error e
    | .ok ⟨key, s₂, h₂⟩ =>
      match hs₃ : skip s₂ with
      | .scalar ':' :: s₃ =>
        match value room (skip s₃) with
        | .error e => .error e
        | .ok ⟨v, s₄, h₄⟩ =>
          match hs₅ : skip s₄ with
          | .scalar '\x7d' :: s₅ =>
            .ok ⟨es.put key v, s₅, by
              have := length_skip_le s₂
              have := length_skip_le s₃
              have := length_skip_le s₄
              simp only [hs₃, hs₅, List.length_cons] at *
              omega⟩
          | .scalar ',' :: s₅ =>
            match members room (es.put key v) (skip s₅) with
            | .error e => .error e
            | .ok ⟨all, s₆, h₆⟩ =>
              .ok ⟨all, s₆, by
                have := length_skip_le s₂
                have := length_skip_le s₃
                have := length_skip_le s₄
                have := length_skip_le s₅
                simp only [hs₃, hs₅, List.length_cons] at *
                omega⟩
          | s' => .error (.trouble .comma s')
      | s' => .error (.trouble .colon s')
  | s => .error (.trouble .propertyName s)
termination_by 2 * s.length + 1
decreasing_by
  · have := length_skip_le s₂
    have := length_skip_le s₃
    simp only [hs₃, List.length_cons] at *
    omega
  · have := length_skip_le s₂
    have := length_skip_le s₃
    have := length_skip_le s₄
    have := length_skip_le s₅
    simp only [hs₃, hs₅, List.length_cons] at *
    omega

end

/-- The value that a JSON text names. -/
def read (s : Text) : Except Fault Value :=
  let fault : Halt → Fault
    | .trouble what rest => Fault.at s what rest
    | .digits count => .digits count
    | .depth container => .depth container
  match s with
  | .scalar '\ufeff' :: _ => .error (fault (.trouble .byteOrderMark s))
  | _ =>
    match value maxDepth (skip s) with
    | .error e => .error (fault e)
    | .ok ⟨v, rest, _⟩ =>
      match skip rest with
      | [] => .ok v
      | extra => .error (fault (.trouble .extra extra))

end Json
end PartialBatch
