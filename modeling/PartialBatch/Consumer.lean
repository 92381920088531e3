/-
# The batch consumer

A consumer is invoked with an event of the queue service. Each record's body must be the
JSON text of an object; one that is not is never handled again, since delivering it once
more changes nothing. The settings come from the environment, and the log lines of an
invocation carry its request id.

| body | outcome |
| --- | --- |
| JSON text of an object | success |
| JSON text of another value, no JSON text | failure of class `MalformedRecordError` |
| holds an integer of too many digits | failure of class `ValueError` |
| is too deep | failure of class `RecursionError` |

The request id is bound before the event is looked at, and it stays bound if the event
turns out to have no records that can be counted. From then on it is unbound in every case.
-/

import PartialBatch.Batch.Processor
import PartialBatch.Log.Level
import PartialBatch.Run.Host

namespace PartialBatch
namespace Consumer

/-- Handles one record. -/
def handleRecord (m : Message) : Run Value :=
  match Json.read m.body with
  | .error (.digits count) => .raise (.saying .valueError (Json.Fault.digits count).text)
  | .error (.depth container) =>
    .raise (.saying .recursionError (Json.Fault.depth container).text)
  | .error fault => .raise (.malformedRecord ("Invalid message format: " ++ fault.text) m.id)
  | .ok (.object es) => do
    let keys := Text.sort (es.map Prod.fst)
    Run.log .info "record_processed"
      [("message_id", .text m.id), ("keys", .list (keys.map Value.text))]
    pure (.object [("messageId", .text m.id), ("status", .text "success")])
  | .ok _ => .raise (.malformedRecord "Message body must be a JSON object" m.id)

/-- The handler of the consumer. -/
def handler : Handler := .object none (some ⟨handleRecord, .done ()⟩) (.ok "record_handler")

/-- The settings of the consumer: malformed records are not retryable. -/
def settings (env : Environment) : Settings :=
  .ofEnvironment env [.errors .malformedRecord]

/-- The host of a consumer that was just loaded. -/
def start (env : Environment) : Host :=
  ⟨.start (.ofName (env.get "LOG_LEVEL" "INFO")), false⟩

/-- How many records an event lists. -/
def recordCount (event : Value) : Except Error Nat := do
  pure (← Message.goThrough (← Message.records event)).length

/-- Processes an event, and notes the report of a batch with failures in the log. -/
def processNoted (p : Processor) (event : Value) : Run (List Value) := do
  match ← (p.processEvent event handler).attempt with
  | .ok values => pure values
  | .error (.report failures values code) =>
    Run.log .error "batch_partially_failed" (← Error.reportEntries failures values code)
    .raise (.report failures values code)
  | .error e => .raise e

/-- One invocation with an event, under a request id. -/
def invoke (env : Environment) (event requestId : Value) : Run Value := do
  .ask (.bind [("aws_request_id", requestId)]) .done
  let count ← recordCount event
  Run.log .info "batch_consumer_invoked" [("record_count", .int count)]
  let p ← Processor.make (settings env) {}
  let result ← (processNoted p event).attempt
  .ask .unbind .done
  let values ← result
  pure (.object [("processed", .int values.length), ("results", .list values)])

end Consumer
end PartialBatch
