/-
# What a processor asks

Besides what the handler and the hooks ask, a processor puts requests to the queue service and
writes lines, with values for fields.  The lines fall in classes, told apart by their events:

| lines | written |
| --- | --- |
| `failureLines` | while messages are handled |
| `batchLines` | before and after the queues are reconciled |
| `routineLines` | on single requests and on deletions |
| `accountLines` | on failures that were moved, deleted or left |

Once all messages have their outcomes, nothing is asked of the handler or the hooks any more
(`asksIn_conclude`).  All that is said function by function, with the lines of each, and holds
whatever is answered.  The names of the fields are the same few throughout.
-/

import PartialBatch.Consumer
import PartialBatch.Proofs.Batch.Cleanup
import PartialBatch.Proofs.Batch.Stages
import PartialBatch.Proofs.Run.Questions

namespace PartialBatch

/-- The names of the fields of a processor's lines. -/
def ownFields : List Text :=
  ["total", "succeeded", "failed", "queue_url", "dead_letter_queue_url", "requested", "moved",
    "count", "failed_count", "message_ids", "message_id", "error_type", "error"]

/-- The lines on failures, by their events and with their levels. -/
def failureLines : List (Text × Log.Level) :=
  [("message_processing_failed", .error), ("failure_hook_failed", .warning)]

/-- The lines on single requests and on deletions. -/
def routineLines : List (Text × Log.Level) :=
  [("delete_message_batch_completed", .debug), ("message_delete_failed", .warning),
    ("messages_deleted", .info), ("send_message_batch_completed", .debug),
    ("dead_letter_send_failed", .error)]

/-- The lines on what became of failures. -/
def accountLines : List (Text × Log.Level) :=
  [("dead_letter_queue_not_configured", .error), ("non_retryable_messages_moved", .info),
    ("non_retryable_messages_deleted", .info), ("retryable_messages_left_on_queue", .info)]

/-- The lines on a batch as a whole. -/
def batchLines : List (Text × Log.Level) :=
  [("batch_processed", .info), ("batch_failures_suppressed", .debug)]

/-- Whether a question is to the queue service, or is a line of some kind with values for fields. -/
def Ask.IsOwn (lines : List (Text × Log.Level)) : Ask → Prop
  | client | request _ => True
  | log entry => ∃ level event fields, entry = .ofValues level event fields ∧
      (event, level) ∈ lines ∧ ∀ f ∈ fields, f.1 ∈ ownFields
  | _ => False

variable {lines others : List (Text × Log.Level)}

open Run.AsksIn

theorem Ask.IsOwn.mono (h : lines ⊆ others) {q : Ask} (hq : q.IsOwn lines) : q.IsOwn others := by
  cases q with
  | log entry =>
    obtain ⟨level, event, fields, hentry, hevent, hfields⟩ := hq
    exact ⟨level, event, fields, hentry, h hevent, hfields⟩
  | _ => exact hq

theorem asksIn_log {level : Log.Level} {event : Text} {fields : Entries}
    (hevent : (event, level) ∈ lines)
    (hfields : ∀ f ∈ fields, f.1 ∈ ownFields) :
    (Run.log level event fields).AsksIn (Ask.IsOwn lines) :=
  question ⟨level, event, fields, rfl, hevent, hfields⟩ fun _ => pure

/-! ## Handling -/

/-- Whether hooks ask only questions of a kind. -/
structure Hooks.AskIn (P : Ask → Prop) (hooks : Hooks) : Prop where
  succeeded : ∀ hook ∈ hooks.succeeded, ∀ m v, (hook m v).AsksIn P
  failed : ∀ hook ∈ hooks.failed, ∀ m e, (hook m e).AsksIn P

theorem Hooks.askIn_none {P : Ask → Prop} : Hooks.AskIn P {} := by
  constructor
  · rintro hook ⟨⟩
  · rintro hook ⟨⟩

namespace Batch

section Handling

variable {P : Ask → Prop} {callee : Callee} {hooks : Hooks}
  (hown : ∀ q, q.IsOwn failureLines → P q)
  (hcallee : ∀ m, (callee m).AsksIn P) (hhooks : hooks.AskIn P)

theorem asksIn_guarded {α : Type} {r : Run α} (hr : r.AsksIn P) : (guarded r).AsksIn P := by
  refine bind (attempt hr) fun y => ?_
  cases y with
  | ok a => exact pure
  | error e => exact ite pure raise

include hcallee hhooks in
theorem asksIn_produce (m : Message) : (produce callee hooks m).AsksIn P := by
  refine bind (hcallee m) fun v => ?_
  dsimp only
  cases hhook : hooks.succeeded with
  | none => exact pure
  | some hook => exact bind (hhooks.succeeded hook hhook m v) fun _ => pure

include hown hhooks in
theorem asksIn_notifyFailure (m : Message) (e : Error) : (notifyFailure hooks m e).AsksIn P := by
  unfold notifyFailure
  cases hhook : hooks.failed with
  | none => exact pure
  | some hook =>
    refine bind (asksIn_guarded (hhooks.failed hook hhook m e)) fun y => ?_
    cases y with
    | ok _ => exact pure
    | error hookError =>
      refine bind lift fun t => (asksIn_log ?_ ?_).mono hown
      · simp [failureLines]
      · simp [ownFields]

include hown hhooks in
/-- What follows the handler and the success hook on one message. -/
theorem asksIn_outcome (m : Message) (y : Except Error Value) :
    (match y with
      | .ok v => pure (.success v)
      | .error e => do
        Run.log .error "message_processing_failed" [("message_id", .text m.id),
          ("error_type", .text e.cls.name), ("error", .text (← e.text))]
        notifyFailure hooks m e
        pure (.failure e) : Run Outcome).AsksIn P := by
  cases y with
  | ok v => exact pure
  | error e =>
    refine bind lift fun t => bind ((asksIn_log ?_ ?_).mono hown) fun _ => ?_
    · simp [failureLines]
    · simp [ownFields]
    · exact bind (asksIn_notifyFailure hown hhooks m e) fun _ => pure

include hown hcallee hhooks in
/-- **Handling a batch asks what the handler and the hooks ask**, and writes lines on failures. -/
theorem asksIn_handleAll (ms : List Message) : (handleAll callee hooks ms).AsksIn P := by
  induction ms with
  | nil => exact pure
  | cons m rest ih =>
    refine bind ?_ fun _ => bind ih fun _ => pure
    exact bind (asksIn_guarded (asksIn_produce hcallee hhooks m)) (asksIn_outcome hown hhooks m)

end Handling

end Batch

/-- The handler of the consumer writes a line on a record. -/
theorem Consumer.asksIn_handleRecord {P : Ask → Prop} {m : Message}
    (hlog : ∀ keys, P (.log (.ofValues .info "record_processed"
      [("message_id", .text m.id), ("keys", .list keys)]))) : (handleRecord m).AsksIn P := by
  unfold handleRecord
  split
  · exact raise
  · exact raise
  · exact raise
  · exact bind (question (hlog _) fun _ => pure) fun _ => pure
  · exact raise

/-! ## Conclusions -/

theorem asksIn_request {r : Request} : (Run.request r).AsksIn (Ask.IsOwn lines) :=
  question trivial fun _ => question trivial fun _ => ofExcept

namespace QueueClient

theorem asksIn_batch {event : Text} {request : Value → Value → Request}
    {queueUrl entries : Value} (hevent : (event, .debug) ∈ lines) :
    (batch event request queueUrl entries).AsksIn (Ask.IsOwn lines) :=
  bind lift fun _ => bind asksIn_request fun _ => bind lift fun _ =>
    bind (asksIn_log hevent (by simp [ownFields])) fun _ => pure

theorem asksIn_redrivePolicy {queueUrl : Value} :
    (redrivePolicy queueUrl).AsksIn (Ask.IsOwn lines) := by
  refine bind asksIn_request fun answer => bind lift fun policy => ?_
  cases policy with
  | none => exact pure
  | some policy => exact bind lift fun _ => pure

end QueueClient

namespace Batch

variable {size : Size} {queueUrl : Text}

theorem asksIn_deleteChunks (ess : List (List Value)) :
    (deleteChunks queueUrl ess).AsksIn (Ask.IsOwn routineLines) := by
  induction ess with
  | nil => exact pure
  | cons es rest ih =>
    refine bind (QueueClient.asksIn_batch (by simp [routineLines])) fun failed => ?_
    exact ite (bind (asksIn_log (by simp [routineLines]) (by simp [ownFields])) fun _ => ih) ih

theorem asksIn_deleteMessages (ms : List Message) :
    (deleteMessages size queueUrl ms).AsksIn (Ask.IsOwn routineLines) :=
  ite pure (bind lift fun ess => bind (asksIn_deleteChunks ess) fun _ =>
    asksIn_log (by simp [routineLines]) (by simp [ownFields]))

theorem asksIn_sendChunks (ids : List Value) (ess : List (List Value)) :
    (sendChunks queueUrl ids ess).AsksIn (Ask.IsOwn routineLines) := by
  induction ess generalizing ids with
  | nil => exact pure
  | cons es rest ih =>
    refine bind (QueueClient.asksIn_batch (by simp [routineLines])) fun failed => ?_
    have hrest : (liftM (addIds ids failed) >>= fun ids =>
        sendChunks queueUrl ids rest).AsksIn (Ask.IsOwn routineLines) := bind lift ih
    refine ite (bind (asksIn_log ?_ ?_) fun _ => hrest) hrest
    · simp [routineLines]
    · simp [ownFields]

theorem asksIn_deleteGroups (groups : QueueGroups) :
    (deleteGroups size groups).AsksIn (Ask.IsOwn routineLines) := by
  induction groups with
  | nil => exact pure
  | cons group rest ih => exact bind (asksIn_deleteMessages group.2) fun _ => ih

theorem isOwn_of_routine (q : Ask) (h : q.IsOwn routineLines) :
    q.IsOwn (routineLines ++ accountLines) := h.mono (List.subset_append_left ..)

theorem asksIn_moveMessages (ms : List Message) :
    (moveMessages size queueUrl ms).AsksIn (Ask.IsOwn (routineLines ++ accountLines)) := by
  refine bind QueueClient.asksIn_redrivePolicy fun policy => ?_
  cases policy with
  | none => exact bind (asksIn_log (by simp [accountLines]) (by simp [ownFields])) fun _ => pure
  | some policy =>
    refine bind lift fun deadLetterUrl => bind lift fun entries => bind lift fun ess => ?_
    refine bind ((asksIn_sendChunks [] ess).mono isOwn_of_routine) fun failedIds => ?_
    exact bind (asksIn_log (by simp [accountLines]) (by simp [ownFields])) fun _ => pure

theorem asksIn_moveGroups (groups : QueueGroups) :
    (moveGroups size groups).AsksIn (Ask.IsOwn (routineLines ++ accountLines)) := by
  induction groups with
  | nil => exact pure
  | cons group rest ih =>
    refine bind (asksIn_moveMessages group.2) fun moved => ?_
    exact bind ((asksIn_deleteMessages moved).mono isOwn_of_routine) fun _ => ih

theorem asksIn_reconcile (settings : Settings) (triage : Triage) (succeeded : List Message)
    (failed : List (Message × Error)) :
    (reconcile settings triage succeeded failed).AsksIn
      (Ask.IsOwn (routineLines ++ accountLines)) := by
  have hlast (count : Nat) : (if count ≠ 0 then
      Run.log .info "retryable_messages_left_on_queue" [("count", .int count)]
      else Pure.pure () : Run Unit).AsksIn (Ask.IsOwn (routineLines ++ accountLines)) :=
    ite (asksIn_log (by simp [accountLines]) (by simp [ownFields])) pure
  have hgroups (groups : QueueGroups) :
      (deleteGroups settings.maxBatchSize groups).AsksIn
        (Ask.IsOwn (routineLines ++ accountLines)) :=
    (asksIn_deleteGroups groups).mono isOwn_of_routine
  refine bind lift fun final => bind lift fun groups => bind lift fun others => ite ?_ ?_
  · refine bind (hgroups _) fun _ => bind (hgroups _) fun _ => ?_
    refine ite (bind (asksIn_log ?_ ?_) fun _ => hlast _) (hlast _)
    · simp [accountLines]
    · simp [ownFields]
  · exact bind (hgroups _) fun _ => bind (asksIn_moveGroups _) fun _ => hlast _

end Batch

/-- The lines of a conclusion. -/
abbrev concludingLines : List (Text × Log.Level) := routineLines ++ accountLines ++ batchLines

/-- **What follows the last outcome of a batch is requests and lines of the processor's own.** -/
theorem Processor.asksIn_conclude (p : Processor) (outcomes : List (Message × Outcome)) :
    (p.conclude outcomes).AsksIn (Ask.IsOwn concludingLines) := by
  have hreconcile (succeeded : List Message) (failed : List (Message × Error)) :
      (Batch.reconcile p.settings p.triage succeeded failed).AsksIn (Ask.IsOwn concludingLines) :=
    (Batch.asksIn_reconcile ..).mono fun q hq => hq.mono (List.subset_append_left ..)
  refine bind (asksIn_log ?_ ?_) fun _ =>
    ite pure (bind (hreconcile ..) fun _ => bind lift fun _ => ?_)
  · simp [batchLines]
  · simp [ownFields]
  · refine ite (bind (asksIn_log ?_ ?_) fun _ => pure) raise
    · simp [batchLines]
    · simp [ownFields]

end PartialBatch
