/-
# Processing a batch

A processor handles batches under one set of settings. It resolves the handler, handles
every message, and, if any failed, reconciles the queues. It ends in

* the values of the messages that succeeded, if none failed or failures are suppressed;
* the report of the batch, if any failed;
* any other error, from wherever it was raised.

The report is made before it is asked whether failures are suppressed.

When no message failed the queue is left alone: the batch is acknowledged as a whole.
-/

import PartialBatch.Batch.Handling
import PartialBatch.Batch.Reconciliation
import PartialBatch.Batch.Report
import PartialBatch.Message.Record

namespace PartialBatch

/-- Handles batches under one set of settings. -/
structure Processor where
  settings : Settings
  triage : Triage
  hooks : Hooks

namespace Processor

/-- A processor for settings, if all their kinds can be used. -/
def make (settings : Settings) (hooks : Hooks) : Except Error Processor := do
  pure ⟨settings, ← Triage.ofKinds settings.kinds, hooks⟩

/-- What follows the handling of a batch. -/
def conclude (p : Processor) (outcomes : List (Message × Outcome)) : Run (List Value) := do
  let succeeded := Batch.successes outcomes
  let failed := Batch.failures outcomes
  let values := succeeded.map Prod.snd
  Run.log .info "batch_processed"
    [("total", .int outcomes.length), ("succeeded", .int succeeded.length),
      ("failed", .int failed.length)]
  if failed.isEmpty then pure values
  else
    Batch.reconcile p.settings p.triage (succeeded.map Prod.fst) failed
    let report ← Error.reporting failed values
    if p.settings.suppress.truthy then
      Run.log .debug "batch_failures_suppressed"
        [("failed_count", .int failed.length),
          ("message_ids", .list (failed.map fun f => .text f.1.id))]
      pure values
    else .raise report

/-- Processes messages with a handler. -/
def process (p : Processor) (ms : List Message) (handler : Handler) : Run (List Value) := do
  let callee ← handler.resolve
  p.conclude (← Batch.handleAll callee p.hooks ms)

/-- Processes the messages of an event with a handler. -/
def processEvent (p : Processor) (event : Value) (handler : Handler) : Run (List Value) := do
  p.process (← Message.ofEvent event) handler

/-- Processes an event, or in its place a value that should list messages: that can only
be empty, since no element of a value is a message. The first element still goes to the
handler, and the batch ends there, because what failed has no identifier to be noted under. -/
def processAny (p : Processor) (input : Value) (handler : Handler) : Run (List Value) :=
  match input with
  | .object _ => p.processEvent input handler
  | _ => do
    let callee ← handler.resolve
    if (← Message.goThrough input).isEmpty then p.conclude []
    else
      callee.stray
      .raise (.unworded .attributeError)

end Processor
end PartialBatch
