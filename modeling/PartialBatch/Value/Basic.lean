/-
# Values

The values that handlers return, that the queue service takes and answers, and that log
lines carry: the values of JSON and byte strings. Integers and floating point numbers are
kept apart, and an object keeps its entries in the order in which their keys were first
written.

| value | counts as false | its elements |
| --- | --- | --- |
| `null` | yes | none: it has no elements |
| `bool b` | if `b` is false | none |
| `int n`, `float x` | if it is zero | none |
| `text t`, `bytes b` | if it is empty | one text per code point, one integer per byte |
| `list vs` | if it is empty | `vs` |
| `object es` | if it is empty | its keys |
-/

import PartialBatch.Number.Binary64

namespace PartialBatch

/-- A value of JSON, or a byte string. -/
inductive Value
  | null
  | bool (b : Bool)
  | int (n : Int)
  | float (x : Binary64)
  | text (t : Text)
  | bytes (b : List UInt8)
  | list (vs : List Value)
  | object (es : List (Text × Value))
  deriving Repr, Inhabited

/-- Entries under keys, by first writing; those of an object hold values. -/
abbrev Entries (α : Type := Value) := List (Text × α)

namespace Value

mutual

/-- Whether two values are the same. -/
def same : Value → Value → Bool
  | null, null => true
  | bool a, bool b => a = b
  | int a, int b => a = b
  | float a, float b => a = b
  | text a, text b => a = b
  | bytes a, bytes b => a = b
  | list a, list b => sameList a b
  | object a, object b => sameEntries a b
  | _, _ => false

/-- Whether two lists hold the same values. -/
def sameList : List Value → List Value → Bool
  | [], [] => true
  | v :: vs, w :: ws => same v w && sameList vs ws
  | _, _ => false

/-- Whether two objects hold the same entries in the same order. -/
def sameEntries : List (Text × Value) → List (Text × Value) → Bool
  | [], [] => true
  | (k, v) :: vs, (l, w) :: ws => k = l && same v w && sameEntries vs ws
  | _, _ => false

end

mutual

theorem same_iff : (v w : Value) → (same v w = true ↔ v = w)
  | null, w => by cases w <;> simp [same]
  | bool _, w => by cases w <;> simp [same]
  | int _, w => by cases w <;> simp [same]
  | float _, w => by cases w <;> simp [same]
  | text _, w => by cases w <;> simp [same]
  | bytes _, w => by cases w <;> simp [same]
  | list a, w => by cases w <;> simp [same, sameList_iff a]
  | object a, w => by cases w <;> simp [same, sameEntries_iff a]

theorem sameList_iff : (v w : List Value) → (sameList v w = true ↔ v = w)
  | [], w => by cases w <;> simp [sameList]
  | v :: vs, w => by cases w <;> simp [sameList, same_iff v, sameList_iff vs]

theorem sameEntries_iff : (v w : List (Text × Value)) → (sameEntries v w = true ↔ v = w)
  | [], w => by cases w <;> simp [sameEntries]
  | (k, v) :: vs, w => by
    cases w <;> simp [sameEntries, same_iff v, sameEntries_iff vs, Prod.ext_iff]

end

instance : DecidableEq Value := fun v w => decidable_of_iff _ (same_iff v w)

/-- Whether a value counts as true where a condition is asked for. -/
def truthy : Value → Bool
  | null => false
  | bool b => b
  | int n => n != 0
  | float x => !x.isZero
  | text t => !t.isEmpty
  | bytes b => !b.isEmpty
  | list vs => !vs.isEmpty
  | object es => !es.isEmpty

/-- The elements of a value, if it has any to go through. -/
def elements? : Value → Option (List Value)
  | text t => some (t.map fun c => text [c])
  | bytes b => some (b.map fun n => int n.toNat)
  | list vs => some vs
  | object es => some (es.map fun e => text e.1)
  | _ => none

/-- The form under which a value is compared in a set of values: numbers by their value,
so that `true`, `1` and `1.0` are one member. Lists and objects cannot be members. -/
def member? : Value → Option Value
  | bool b => some (int (if b then 1 else 0))
  | float x => some (match x.toInt? with
    | some n => int n
    | none => float x)
  | list _ => none
  | object _ => none
  | v => some v

/-- Whether a member equals no member, itself included. -/
def isNaN : Value → Bool
  | float .nan => true
  | _ => false

/-- The members of a set after one more was put in. -/
def insertMember (members : List Value) (v : Value) : List Value :=
  if v ∈ members ∧ !v.isNaN then members else members ++ [v]

end Value

namespace Entries

variable {α : Type}

/-- What is under a key. -/
def get? (es : Entries α) (key : Text) : Option α := es.lookup key

/-- The entries after something was written under a key: in place if the key is there, at
the end otherwise. -/
def put (key : Text) (a : α) : Entries α → Entries α
  | [] => [(key, a)]
  | (k, b) :: rest => if k = key then (k, a) :: rest else (k, b) :: put key a rest

/-- The entries after all of another list were written, in order. -/
def putAll (es new : Entries α) : Entries α := new.foldl (fun es e => es.put e.1 e.2) es

end Entries
end PartialBatch
