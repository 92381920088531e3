/-
# Chunks

A request to the queue service takes at most ten entries, so longer lists are sent in
chunks: consecutive, in order, each of the size asked for except a shorter last one.

The size is a setting and may be any number; only a whole one gives chunks.

| size | chunks |
| --- | --- |
| `int n`, `n ≥ 1` | of `n` entries |
| `bool true` | of one entry |
| any that is below 1 | none: a `ValueError` names it |
| any other floating point number | none: a `TypeError` |
-/

import PartialBatch.Error.Basic

namespace PartialBatch

/-- The most entries that one request may hold. -/
def maxEntries : Nat := 10

/-- A size as it is configured. -/
inductive Size
  | int (n : Int)
  | bool (b : Bool)
  | float (x : Binary64)
  deriving DecidableEq, Repr, Inhabited

namespace Size

instance (n : Nat) : OfNat Size n := ⟨int n⟩

/-- The value of a size. -/
def value : Size → Value
  | int n => .int n
  | bool b => .bool b
  | float x => .float x

/-- The size that a value is; only numbers compare with one. -/
def ofValue : Value → Except Error Size
  | .int n => .ok (int n)
  | .bool b => .ok (bool b)
  | .float x => .ok (float x)
  | _ => .error (.unworded .typeError)

/-- Whether a size is `n` or more. -/
def atLeast (n : Int) : Size → Bool
  | int m => n ≤ m
  | bool b => n ≤ (if b then 1 else 0)
  | float x => Binary64.intLE n x

/-- Whether a size is `n` or less. -/
def atMost (n : Int) : Size → Bool
  | int m => m ≤ n
  | bool b => (if b then 1 else 0) ≤ n
  | float x => x.leInt n

/-- Whether a size is less than `n`; a NaN is not. -/
def below (n : Int) : Size → Bool
  | float .nan => false
  | size => !size.atLeast n

/-- The length of the chunks of a size. -/
def stride (size : Size) : Except Error Nat :=
  if size.below 1 then do
    let t ← Error.telling size.value
    .error (.saying .valueError ("max_size must be at least 1, got " ++ t))
  else match size with
    | int n => .ok n.toNat
    | bool _ => .ok 1
    | float _ => .error (.unworded .typeError)

end Size

/-- A list in pieces of `n` elements; the last one may be shorter. -/
def chunks {α : Type} (n : Nat) (xs : List α) : List (List α) :=
  match xs with
  | [] => []
  | x :: rest => (x :: rest.take (n - 1)) :: chunks n (rest.drop (n - 1))
termination_by xs.length
decreasing_by simp only [List.length_drop, List.length_cons]; omega

/-- A list in chunks of a size. -/
def chunk {α : Type} (xs : List α) (size : Size) : Except Error (List (List α)) := do
  pure (chunks (← size.stride) xs)

end PartialBatch
