/-
# Reconciling the queues

When some messages of a batch failed, the batch is not acknowledged, so its queues are put
right before that is reported. Each queue is dealt with by its own URL, in chunks.

1. The messages that succeeded are deleted.
2. Failures that are not retryable are moved to the dead-letter queue of their queue and
   then deleted. With `deleteNonRetryable` they are deleted without being moved, together
   with the successes of their queue if it has any.
3. Retryable failures stay where they are.

All successes of all queues are deleted before the first failure is moved. A failure is
deleted only if all messages of its queue were sent and the answers do not list its id as
failed. A queue without redrive policy keeps its failures. Any error ends the
reconciliation where it is.
-/

import PartialBatch.Message.Entry
import PartialBatch.Queue.Client
import PartialBatch.Settings

namespace PartialBatch

/-- Messages by the URLs of their queues, both in order of first occurrence. -/
abbrev QueueGroups := List (Text × List Message)

namespace QueueGroups

/-- The groups after a message of a queue was added. -/
def add (queueUrl : Text) (m : Message) : QueueGroups → QueueGroups
  | [] => [(queueUrl, [m])]
  | (url, ms) :: rest =>
    if url = queueUrl then (url, ms ++ [m]) :: rest else (url, ms) :: add queueUrl m rest

/-- The groups after messages were added, in order. -/
def addAll (groups : QueueGroups) : List Message → Except Error QueueGroups
  | [] => .ok groups
  | m :: rest => do addAll (add (← m.queueUrl) m groups) rest

/-- Messages grouped by their queues. -/
def ofMessages (ms : List Message) : Except Error QueueGroups := addAll [] ms

/-- The messages of a queue. -/
def get (groups : QueueGroups) (queueUrl : Text) : List Message :=
  (groups.lookup queueUrl).getD []

/-- The groups of the queues that do not occur among others. -/
def without (groups others : QueueGroups) : QueueGroups :=
  groups.filter fun g => (others.lookup g.1).isNone

end QueueGroups

namespace Batch

/-- Deletes chunks of entries from a queue. -/
def deleteChunks (queueUrl : Text) : List (List Value) → Run Unit
  | [] => pure ()
  | entries :: rest => do
    let failed ← QueueClient.delete (.text queueUrl) (.list entries)
    if !failed.isEmpty then
      Run.log .warning "message_delete_failed"
        [("queue_url", .text queueUrl), ("failed", .list failed)]
    deleteChunks queueUrl rest

/-- Deletes messages from a queue. -/
def deleteMessages (size : Size) (queueUrl : Text) (ms : List Message) : Run Unit :=
  if ms.isEmpty then pure () else do
    deleteChunks queueUrl (← chunk (ms.map Message.deleteEntry) size)
    Run.log .info "messages_deleted" [("queue_url", .text queueUrl), ("count", .int ms.length)]

/-- The id that an entry of an answer names, as a member of a set. -/
def entryId (entry : Value) : Except Error Value :=
  match entry with
  | .object es =>
    match Entries.get? es "Id" with
    | none => .error (.ordinary .keyError [.text "Id"] [] none)
    | some id => match id.member? with
      | some member => .ok member
      | none => .error (.unworded .typeError)
  | _ => .error (.unworded .typeError)

/-- A set of ids after those of entries were put in. -/
def addIds (ids : List Value) : List Value → Except Error (List Value)
  | [] => .ok ids
  | entry :: rest => do addIds (Value.insertMember ids (← entryId entry)) rest

/-- Sends chunks of entries to a dead-letter queue, and gives the ids that failed. -/
def sendChunks (deadLetterUrl : Text) (ids : List Value) : List (List Value) → Run (List Value)
  | [] => pure ids
  | entries :: rest => do
    let failed ← QueueClient.send (.text deadLetterUrl) (.list entries)
    if !failed.isEmpty then
      Run.log .error "dead_letter_send_failed"
        [("queue_url", .text deadLetterUrl), ("failed", .list failed)]
    sendChunks deadLetterUrl (← addIds ids failed) rest

/-- Moves messages of a queue to its dead-letter queue, and gives those that were moved. -/
def moveMessages (size : Size) (queueUrl : Text) (ms : List Message) : Run (List Message) := do
  match ← QueueClient.redrivePolicy (.text queueUrl) with
  | none =>
    Run.log .error "dead_letter_queue_not_configured"
      [("queue_url", .text queueUrl), ("message_ids", .list (ms.map fun m => .text m.id))]
    pure []
  | some policy =>
    let deadLetterUrl ← policy.deadLetterUrl
    let entries ← Message.sendEntries ms
    let failedIds ← sendChunks deadLetterUrl [] (← chunk entries size)
    let moved := ms.filter fun m => Value.text m.id ∉ failedIds
    Run.log .info "non_retryable_messages_moved"
      [("queue_url", .text queueUrl), ("dead_letter_queue_url", .text deadLetterUrl),
        ("moved", .int moved.length), ("failed", .int failedIds.length)]
    pure moved

/-- Deletes the messages of each group. -/
def deleteGroups (size : Size) : QueueGroups → Run Unit
  | [] => pure ()
  | (queueUrl, ms) :: rest => do
    deleteMessages size queueUrl ms
    deleteGroups size rest

/-- Moves the messages of each group, and deletes those that were moved. -/
def moveGroups (size : Size) : QueueGroups → Run Unit
  | [] => pure ()
  | (queueUrl, ms) :: rest => do
    let moved ← moveMessages size queueUrl ms
    deleteMessages size queueUrl moved
    moveGroups size rest

/-- The messages whose errors are not retryable. -/
def nonRetryable (triage : Triage) : List (Message × Error) → Except Error (List Message)
  | [] => .ok []
  | (m, e) :: rest => do
    let final ← triage.isNonRetryable e
    let others ← nonRetryable triage rest
    pure (if final then m :: others else others)

/-- Reconciles the queues of a batch. -/
def reconcile (settings : Settings) (triage : Triage) (succeeded : List Message)
    (failed : List (Message × Error)) : Run Unit := do
  let size := settings.maxBatchSize
  let final ← nonRetryable triage failed
  let successGroups ← QueueGroups.ofMessages succeeded
  let finalGroups ← QueueGroups.ofMessages final
  if settings.deleteNonRetryable.truthy then
    deleteGroups size (successGroups.map fun g => (g.1, g.2 ++ finalGroups.get g.1))
    deleteGroups size (finalGroups.without successGroups)
    if !final.isEmpty then
      Run.log .info "non_retryable_messages_deleted" [("count", .int final.length)]
  else
    deleteGroups size successGroups
    moveGroups size finalGroups
  let retryable := failed.length - final.length
  if retryable ≠ 0 then
    Run.log .info "retryable_messages_left_on_queue" [("count", .int retryable)]

end Batch
end PartialBatch
