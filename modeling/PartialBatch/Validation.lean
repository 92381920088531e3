/-
# Reading objects field by field

A record is an object whose fields are looked for under two keys, the one that services
write and the one of the library. The first, if it is present, wins whatever its value.
Each field has a reader; what a reader refuses is a fault with the keys that lead to it.
Faults are collected in the order of the fields, and inside an object in the order of its
keys. A fault tells keys without lone surrogates: in the place of each stands `U+FFFD` three
times, for the bytes that would encode it.

| reader | accepts |
| --- | --- |
| `text` | a text |
| `optional r` | null, or what `r` accepts |
| `objectOf r` | an object whose values `r` accepts |
| `integer` | a value that names an integer |
| `any` | everything |
-/

import PartialBatch.Value.Integer

namespace PartialBatch

/-- What is wrong with a field. -/
inductive Complaint
  /-- The field is required and neither of its keys is present. -/
  | missing
  /-- The value is no text. -/
  | text
  /-- The value is no object. -/
  | object
  /-- The record itself is no object; `record` names what it should be. -/
  | record (record : Text)
  /-- The value names no integer. -/
  | integer (fault : IntegerFault)
  deriving DecidableEq, Repr

namespace Complaint

/-- The tag of a complaint. -/
def tag : Complaint → Text
  | missing => "missing"
  | text => "string_type"
  | object => "dict_type"
  | record _ => "model_type"
  | integer .type => "int_type"
  | integer .numeral => "int_parsing"
  | integer .fractional => "int_from_float"
  | integer .notFinite => "finite_number"
  | integer .size => "int_parsing_size"
  | integer .surrogate => "string_unicode"

/-- The wording of a complaint. -/
def wording : Complaint → Text
  | missing => "Field required"
  | text => "Input should be a valid string"
  | object => "Input should be a valid dictionary"
  | record name => "Input should be a valid dictionary or instance of " ++ name
  | integer .type => "Input should be a valid integer"
  | integer .numeral => "Input should be a valid integer, unable to parse string as an integer"
  | integer .fractional =>
    "Input should be a valid integer, got a number with a fractional part"
  | integer .notFinite => "Input should be a finite number"
  | integer .size => "Unable to parse input string as an integer, exceeded maximum size"
  | integer .surrogate =>
    "Input should be a valid string, unable to parse raw data as a unicode string"

end Complaint

/-- A complaint, and the keys that lead to the value it is about. -/
structure FieldFault where
  place : List Text
  complaint : Complaint
  deriving DecidableEq, Repr

namespace FieldFault

/-- The keys that lead to a faulty value, with dots between them. -/
def dotted (f : FieldFault) : Text := Text.join "." f.place

end FieldFault

/-- The faults of a record, of which there is at least one. -/
structure Faults where
  first : FieldFault
  others : List FieldFault
  deriving DecidableEq, Repr

namespace Faults

/-- A single fault. -/
def single (place : List Text) (complaint : Complaint) : Faults := ⟨⟨place, complaint⟩, []⟩

/-- All faults, in order. -/
def toList (fs : Faults) : List FieldFault := fs.first :: fs.others

/-- The faults of one part of a record and of a later one. -/
def append (fs gs : Faults) : Faults := ⟨fs.first, fs.others ++ gs.toList⟩

end Faults

/-- A result, or all faults that stand in its way. -/
abbrev Checked (α : Type) := Except Faults α

/-- Reads a value found at a place. -/
abbrev FieldReader (α : Type) := List Text → Value → Checked α

namespace Checked

/-- A result without faults. -/
def pure {α : Type} (a : α) : Checked α := .ok a

/-- A function applied to a result; the faults of both sides are collected. -/
def seq {α β : Type} (f : Checked (α → β)) (x : Checked α) : Checked β :=
  match f, x with
  | .ok f, .ok x => .ok (f x)
  | .ok _, .error gs => .error gs
  | .error fs, .ok _ => .error fs
  | .error fs, .error gs => .error (fs.append gs)

end Checked

namespace FieldReader

/-- Accepts a text. -/
def text : FieldReader Text
  | _, .text t => .ok t
  | place, _ => .error (.single place .text)

/-- Accepts every value. -/
def any : FieldReader Value
  | _, v => .ok v

/-- Accepts a value that names an integer. -/
def integer : FieldReader Int
  | place, v => match v.integer with
    | .ok n => .ok n
    | .error f => .error (.single place (.integer f))

/-- Accepts null, and what another reader accepts. -/
def optional {α : Type} (r : FieldReader α) : FieldReader (Option α)
  | _, .null => .ok none
  | place, v => (r place v).map some

/-- A key as faults tell it. -/
def toldKey (key : Text) : Text :=
  key.flatMap fun c => if c.isSurrogate then List.replicate 3 (.scalar '\ufffd') else [c]

/-- The values of an object, each read at its own key. -/
def entries {α : Type} (r : FieldReader α) (place : List Text) :
    Entries → Checked (List (Text × α))
  | [] => .ok []
  | (k, v) :: rest =>
    Checked.seq ((r (place ++ [toldKey k]) v).map fun a tail => (k, a) :: tail)
      (entries r place rest)

/-- Accepts an object whose values another reader accepts. -/
def objectOf {α : Type} (r : FieldReader α) : FieldReader (List (Text × α))
  | place, .object es => entries r place es
  | place, _ => .error (.single place .object)

/-- A field of a record, under `key` or else under `name`. A field that is absent has the
default, or is missing under `key`. -/
def field {α : Type} (r : FieldReader α) (key name : Text) (default? : Option α) (es : Entries) :
    Checked α :=
  match es.get? key with
  | some v => r [key] v
  | none =>
    match es.get? name with
    | some v => r [name] v
    | none =>
      match default? with
      | some a => .ok a
      | none => .error (.single [key] .missing)

end FieldReader
end PartialBatch
