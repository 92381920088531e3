/-
# Cleanup is fail-stop

Once all messages of a batch have their outcomes, the batch is unguarded: it catches nothing. So
whichever of its calls fails, that is the last thing that happens, and the batch ends in the error
of the call: no report is made, and none is suppressed. And the calls are causal: which call is
next depends on the outcomes and on the answers so far, so what was called before a failure is
what would have been called without it.

| part | why it is unguarded |
| --- | --- |
| `deleteChunks`, `sendChunks` | one call after another, by induction on the chunks |
| `deleteGroups`, `moveGroups` | one group after another, by induction on the groups |
| `reconcile`, `conclude` | put together from these |
-/

import PartialBatch.Proofs.Batch.NoLoss
import PartialBatch.Proofs.Queue.Unguarded

namespace PartialBatch

open Run (Unguarded)

namespace QueueClient

variable {queueUrl entries : Value}

theorem unguarded_batch {event : Text} {request : Value → Value → Request} :
    (batch event request queueUrl entries).Unguarded := by
  refine Unguarded.lift.bind fun count => Unguarded.call.bind fun answer => ?_
  exact Unguarded.lift.bind fun failed => Unguarded.line.bind fun _ => .done

theorem unguarded_redrivePolicy : (redrivePolicy queueUrl).Unguarded := by
  refine Unguarded.call.bind fun answer => Unguarded.lift.bind fun policy => ?_
  cases policy with
  | none => exact .done
  | some raw => exact Unguarded.lift.bind fun policy => .done

end QueueClient

namespace Batch

variable {size : Size} {queueUrl : Text}

theorem unguarded_deleteChunks (ess : List (List Value)) :
    (deleteChunks queueUrl ess).Unguarded := by
  induction ess with
  | nil => exact .done
  | cons es rest ih =>
    exact QueueClient.unguarded_batch.bind fun failed => (Unguarded.line.bind fun _ => ih).ite ih

theorem unguarded_deleteMessages (ms : List Message) :
    (deleteMessages size queueUrl ms).Unguarded := by
  refine Unguarded.done.ite (Unguarded.lift.bind fun ess => ?_)
  exact (unguarded_deleteChunks ess).bind fun _ => .line

theorem unguarded_sendChunks (ids : List Value) (ess : List (List Value)) :
    (sendChunks queueUrl ids ess).Unguarded := by
  induction ess generalizing ids with
  | nil => exact .done
  | cons es rest ih =>
    have hrest (failed : List Value) : (do
        let ids ← addIds ids failed
        sendChunks queueUrl ids rest : Run (List Value)).Unguarded :=
      Unguarded.lift.bind ih
    exact QueueClient.unguarded_batch.bind fun failed =>
      (Unguarded.line.bind fun _ => hrest failed).ite (hrest failed)

theorem unguarded_moveMessages (ms : List Message) :
    (moveMessages size queueUrl ms).Unguarded := by
  refine QueueClient.unguarded_redrivePolicy.bind fun policy => ?_
  cases policy with
  | none => exact Unguarded.line.bind fun _ => .done
  | some policy =>
    refine Unguarded.lift.bind fun deadLetterUrl => Unguarded.lift.bind fun entries => ?_
    refine Unguarded.lift.bind fun ess => (unguarded_sendChunks [] ess).bind fun failedIds => ?_
    exact Unguarded.line.bind fun _ => .done

theorem unguarded_deleteGroups (groups : QueueGroups) : (deleteGroups size groups).Unguarded := by
  induction groups with
  | nil => exact .done
  | cons group rest ih => exact (unguarded_deleteMessages group.2).bind fun _ => ih

theorem unguarded_moveGroups (groups : QueueGroups) : (moveGroups size groups).Unguarded := by
  induction groups with
  | nil => exact .done
  | cons group rest ih =>
    refine (unguarded_moveMessages group.2).bind fun moved => ?_
    exact (unguarded_deleteMessages moved).bind fun _ => ih

/-- **A reconciliation catches nothing.** -/
theorem unguarded_reconcile (settings : Settings) (triage : Triage) (succeeded : List Message)
    (failed : List (Message × Error)) :
    (reconcile settings triage succeeded failed).Unguarded := by
  have hlast (count : Nat) : (if count ≠ 0 then
      Run.log .info "retryable_messages_left_on_queue" [("count", .int count)]
      else pure () : Run Unit).Unguarded := Unguarded.line.ite .done
  refine Unguarded.lift.bind fun final => Unguarded.lift.bind fun groups => ?_
  refine Unguarded.lift.bind fun others => Unguarded.ite ?_ ?_
  · refine (unguarded_deleteGroups _).bind fun _ => (unguarded_deleteGroups _).bind fun _ => ?_
    exact (Unguarded.line.bind fun _ => hlast _).ite (hlast _)
  · exact (unguarded_deleteGroups _).bind fun _ => (unguarded_moveGroups _).bind fun _ => hlast _

end Batch

namespace Processor

variable {p : Processor} {ms : List Message} {handler : Handler}
  {outcomes : List (Message × Outcome)} {t : List Event} {x : Except Error (List Value)}

/-- **What follows the last outcome of a batch catches nothing.** -/
theorem unguarded_conclude (outcomes : List (Message × Outcome)) :
    (p.conclude outcomes).Unguarded := by
  refine Unguarded.line.bind fun _ => Unguarded.done.ite ?_
  refine (Batch.unguarded_reconcile ..).bind fun _ => Unguarded.lift.bind fun _ => ?_
  exact (Unguarded.line.bind fun _ => .done).ite .raise

/-- Whether what follows the outcomes of a batch stops where a call fails, and makes the calls that
the answers determine. -/
structure FailStop (p : Processor) (ms : List Message) (outcomes : List (Message × Outcome))
    (rest : List Event) (x : Except Error (List Value)) : Prop where
  /-- A call that fails is the last event, and the batch ends in its error. -/
  stopped : ∀ before r e after, calls rest = before ++ ⟨r, .error e⟩ :: after →
    after = [] ∧ x = .error e ∧ ∃ earlier, rest = earlier ++ [⟨.request r, .error e⟩]
  /-- If the batch has the same outcomes another time, and the first `k` answers are the same,
  then so are the first `k + 1` requests. -/
  determined : ∀ handler handled rest' x', p.Stages ms handler handled outcomes rest' x' → ∀ k,
    ((calls rest).map Call.answer).take k = ((calls rest').map Call.answer).take k →
    ((calls rest).map Call.request).take (k + 1) = ((calls rest').map Call.request).take (k + 1)

/-- **Cleanup is fail-stop and causal**, in every course of a batch. -/
theorem cleanup_fail_stop (h : (p.process ms handler).Ends t x) :
    ∃ handled outcomes rest, t = handled ++ rest ∧ p.Stages ms handler handled outcomes rest x ∧
      p.FailStop ms outcomes rest x := by
  obtain ⟨handled, outcomes, rest, rfl, hstages⟩ := ends_process.1 h
  refine ⟨handled, outcomes, rest, rfl, hstages, ?_, ?_⟩
  · intro before r e after hcalls
    cases hstages with
    | aborted => simp at hcalls
    | concluded _ hconclude =>
      obtain ⟨t₁, t₂, rfl, -, hafter⟩ := exists_of_calls_eq hcalls
      obtain ⟨rfl, hx⟩ := (unguarded_conclude outcomes).eq_nil_of_error hconclude
      exact ⟨hafter.symm, hx, t₁, rfl⟩
  · intro handler' handled' rest' x' hstages' k hanswers
    obtain ⟨u, y, hu, hcalls⟩ := hstages.exists_conclusion
    obtain ⟨u', y', hu', hcalls'⟩ := hstages'.exists_conclusion
    rw [← hcalls, ← hcalls'] at hanswers ⊢
    exact (unguarded_conclude outcomes).requests_take hu hu' hanswers

end Processor

namespace Sample

/-- What a service answers that does not show the attributes of its queues. -/
def denied : Error := .saying .clientError "denied"

/-- A service that deletes and accepts everything, and does not show attributes. -/
def closedService : Request → Except Error Value
  | .attributes _ _ => .error denied
  | _ => .ok (.object [])

end Sample

namespace Processor

/-- Such a course: `a` is deleted, the attributes are not shown, and that is the end. -/
theorem cleanup_fail_stop_sample : ∃ t,
    (Sample.processor.process Sample.orders Consumer.handler).Ends t (.error Sample.denied) ∧
      (calls t).map Call.request = Sample.requests.take 2 ∧
      ∃ handled outcomes rest, t = handled ++ rest ∧
        Sample.processor.Stages Sample.orders Consumer.handler handled outcomes rest
          (.error Sample.denied) ∧
        Sample.processor.FailStop Sample.orders outcomes rest (.error Sample.denied) := by
  have h := Run.ends_exec (.service Sample.closedService)
    (Sample.processor.process Sample.orders Consumer.handler) ()
  have hend : ((Sample.processor.process Sample.orders Consumer.handler).exec
      (.service Sample.closedService) ()).2.1 = .error Sample.denied := by decide +kernel
  rw [hend] at h
  exact ⟨_, h, by decide +kernel, cleanup_fail_stop h⟩

end Processor
end PartialBatch
