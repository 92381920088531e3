/-
# Log lines

A line is an object. Its entries are, in this order, the fields of the entry, the event if
there is one, what is bound in the context and not yet there, the level, and the time. A
field wins over the context. Fields with the names of the level and the time keep their
place, and their values are replaced.

| name | as a field |
| --- | --- |
| `exc_info` | is not written; an error under it is told under `exception`, last |
| `event`, `self` | is refused |
| `method_name` | is refused if the line would be written |

An error in a field is written as its text. That is asked for when the line is complete, so
a field that was replaced needs none.

Loggers are known by name. A logger takes over the level that is configured when it is
first used, and keeps it. The context is shared by all loggers: binding replaces it.
-/

import PartialBatch.Error.Basic
import PartialBatch.Log.Level

namespace PartialBatch
namespace Log

/-- A field of a line: a value, or an error, of which the text is written. -/
inductive Field
  | value (v : Value)
  | error (e : Error)
  deriving DecidableEq, Repr

/-- The value that is written for a field. -/
def Field.written : Field → Except Error Value
  | value v => .ok v
  | error e => do pure (.text (← e.text))

/-- What a logger is given to write. -/
structure Entry where
  level : Level
  /-- What happened; null for nothing in particular. -/
  event : Value
  fields : Entries Field
  deriving Repr

namespace Entry

/-- An entry whose fields are values. -/
def ofValues (level : Level) (event : Text) (fields : Entries) : Entry :=
  ⟨level, .text event, fields.map fun e => (e.1, .value e.2)⟩

/-- The name of the field that is not written. -/
def errorField : Text := "exc_info"

/-- The entries of the line for an entry, with its errors as they are. -/
def assembled (entry : Entry) (context : Entries) (time : Text) : Entries Field :=
  let fields : Entries Field := entry.fields.filter fun f => f.1 ≠ errorField
  let named := if entry.event = .null then fields else fields.put "event" (.value entry.event)
  let bound := (context.filter fun e => e.1 ≠ errorField).foldl
    (fun (es : Entries Field) e => if (es.get? e.1).isSome then es else es.put e.1 (.value e.2))
    named
  let stamped :=
    (bound.put "level" (.value (.text entry.level.name))).put "timestamp" (.value (.text time))
  match entry.fields.get? errorField with
  | some (.error e) => stamped.put "exception" (.value (.text e.told))
  | _ => stamped

/-- The values that are written for fields. -/
def writtenFields : Entries Field → Except Error Entries
  | [] => .ok []
  | (key, field) :: rest => do
    let v ← field.written
    let others ← writtenFields rest
    pure ((key, v) :: others)

/-- The line for an entry. -/
def line (entry : Entry) (context : Entries) (time : Text) : Except Error Entries :=
  writtenFields (entry.assembled context time)

end Entry

/-- The loggers of a process: the level that is configured, the levels that loggers in use
have taken over, and the context. -/
structure State where
  configured : Level
  taken : List (Text × Level)
  context : Entries
  deriving Repr

namespace State

/-- Before any logger is used. -/
def start (configured : Level) : State := ⟨configured, [], []⟩

/-- With another level for loggers that are used later. -/
def configure (st : State) (configured : Level) : State := { st with configured }

/-- With nothing bound but the given entries. -/
def bind (st : State) (context : Entries) : State := { st with context }

/-- With nothing bound. -/
def unbind (st : State) : State := { st with context := [] }

/-- The level of a logger. -/
def levelOf (st : State) (logger : Text) : Level := (st.taken.lookup logger).getD st.configured

/-- After a logger was used. -/
def use (st : State) (logger : Text) : State :=
  if (st.taken.lookup logger).isSome then st
  else { st with taken := (logger, st.configured) :: st.taken }

/-- The line that a logger writes for an entry, if the entry reaches its level. -/
def line? (st : State) (logger : Text) (entry : Entry) (time : Text) :
    Except Error (Option Entries) :=
  let has (name : Text) : Bool := (entry.fields.get? name).isSome
  if has "event" ∨ has "self" then .error (.unworded .typeError)
  else if entry.level.reaches (st.levelOf logger) then
    if has "method_name" then .error (.unworded .typeError)
    else do pure (some (← entry.line st.context time))
  else .ok none

end State
end Log
end PartialBatch
