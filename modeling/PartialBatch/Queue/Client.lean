/-
# Calls to the queue service

Three calls are made: deleting messages from a queue, sending messages to a queue, and
reading a queue's redrive policy. A request holds one to ten entries; any other number, or
a value in their place that has no number of entries, is refused before the client is used.
An answer may list entries that failed, under `Failed`; whatever stands there and counts as
false lists none, and its elements are the entries otherwise.

Errors of the client are not caught here.
-/

import PartialBatch.Batch.Chunk
import PartialBatch.Queue.RedrivePolicy
import PartialBatch.Run.Basic

namespace PartialBatch
namespace QueueClient

/-- The number of entries of a request; no entry and too many are refused. -/
def countEntries (entries : Value) : Except Error Nat :=
  if !entries.truthy then .error (.saying .valueError "At least one entry is required")
  else match entries.elements? with
    | none => .error (.unworded .typeError)
    | some es =>
      if es.length > maxEntries then
        .error (.saying .valueError ("At most 10 entries are allowed per request, got " ++
          Text.ofNat es.length))
      else .ok es.length

/-- The value that an answer has under a key; null if it has none. Only objects have keys. -/
def part (answer : Value) (key : Text) : Except Error Value :=
  match answer with
  | .object es => .ok ((Entries.get? es key).getD .null)
  | _ => .error (.unworded .attributeError)

/-- The entries that an answer lists as failed. -/
def failedEntries (answer : Value) : Except Error (List Value) := do
  let failed ← part answer "Failed"
  if !failed.truthy then pure []
  else match failed.elements? with
    | some vs => pure vs
    | none => .error (.unworded .typeError)

/-- Makes a request of entries, and gives those that failed. -/
def batch (event : Text) (request : Value → Value → Request) (queueUrl entries : Value) :
    Run (List Value) := do
  let count ← countEntries entries
  let answer ← Run.request (request queueUrl entries)
  let failed ← failedEntries answer
  Run.log .debug event
    [("queue_url", queueUrl), ("requested", .int count), ("failed", .int failed.length)]
  pure failed

/-- Deletes messages from a queue, and gives the entries that failed. -/
def delete (queueUrl entries : Value) : Run (List Value) :=
  batch "delete_message_batch_completed" .delete queueUrl entries

/-- Sends messages to a queue, and gives the entries that failed. -/
def send (queueUrl entries : Value) : Run (List Value) :=
  batch "send_message_batch_completed" .send queueUrl entries

/-- The name of the attribute that holds the redrive policy. -/
def redriveAttribute : Text := "RedrivePolicy"

/-- The text of the redrive policy in an answer, unless it counts as false. -/
def policyOf (answer : Value) : Except Error (Option Value) := do
  let attributes ← part answer "Attributes"
  let policy ← if attributes.truthy then part attributes redriveAttribute else pure .null
  pure (if policy.truthy then some policy else none)

/-- Reads the redrive policy of a queue; a queue without dead-letter queue has none. -/
def redrivePolicy (queueUrl : Value) : Run (Option RedrivePolicy) := do
  let answer ← Run.request (.attributes queueUrl [redriveAttribute])
  match ← policyOf answer with
  | none => pure none
  | some policy => pure (some (← RedrivePolicy.ofAttribute queueUrl policy))

end QueueClient
end PartialBatch
