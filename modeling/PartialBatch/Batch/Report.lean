/-
# Reports

A batch with failures ends in a report. It pairs each failed message with its error, in the
order in which they failed, and keeps the values of the messages that succeeded.

| part | content |
| --- | --- |
| message | a line for each failure: its error as messages show it |
| code | `BATCH_PROCESSING` |
| details | how many failed and how many succeeded |
| entries | message, code, for each failure its id, class and text, number of successes |

A report is made only if each of its errors can be shown.
-/

import PartialBatch.Error.Basic

namespace PartialBatch
namespace Error

/-- The report of failed messages with their errors and of the values of the others. -/
def reported (failures : List (Message × Error)) (values : List Value) : Error :=
  report failures values (.text "BATCH_PROCESSING")

/-- The report of failures whose errors can be shown; otherwise the error of showing one. -/
def reporting (failures : List (Message × Error)) (values : List Value) : Except Error Error := do
  let _ ← lines failures
  pure (reported failures values)

/-- The report for errors and failed messages given apart; there must be as many of each. -/
def makeReport (errors : List Error) (failed : List Message) (values : List Value) :
    Except Error Error :=
  if errors.length = failed.length then reporting (failed.zip errors) values
  else .error (saying .valueError "Each failed message needs exactly one exception")

/-- The details of an error, if it is one that has them. -/
def details? : Error → Option Value
  | coded parts => some parts.details
  | report failures values _ =>
    some (.object [("failed_count", .int failures.length), ("success_count", .int values.length)])
  | _ => none

/-- The facts that the class of an error records beside its details. -/
def notes : Error → Entries
  | coded parts => parts.notes
  | _ => []

/-- One failure of a report: the id of the message, the class and the text of its error. -/
def failureEntry (failure : Message × Error) : Except Error Value := do
  let t ← failure.2.text
  pure (.object [("message_id", .text failure.1.id), ("error_type", .text failure.2.cls.name),
    ("error", .text t)])

/-- The parts of a report. -/
def reportEntries (failures : List (Message × Error)) (values : List Value) (code : Value) :
    Except Error Entries := do
  let message ← lines failures
  let each ← failures.mapM failureEntry
  pure [("message", .text message), ("error_code", code), ("failures", .list each),
    ("success_count", .int values.length)]

end Error
end PartialBatch
