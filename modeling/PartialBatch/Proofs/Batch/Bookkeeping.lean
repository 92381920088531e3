/-
# The books of a batch

Three lists are kept about the messages of a batch: the values of those that succeeded, those
that failed, and their errors. They stay in step, whatever handler and hooks do to the messages:

* each message is recorded as its passage went (`Recorded`): a success if neither the handler
  nor the success hook raised, a failure with the very error otherwise, and the failure hook is
  called on that error;
* taking each outcome from the head of the list that it belongs to gives the outcomes back, in
  order, and leaves nothing (`interleave_outcomes`);
* what a batch returns are the values, and what it reports are the failures with their errors
  and the values (`Processor.books_balance`). Every error that was recorded has a text, so there are
  entries of every report that could be made (`Error.exists_reportEntries`).
-/

import PartialBatch.Proofs.Batch.Passages
import PartialBatch.Proofs.Batch.Raised
import Mathlib.Data.List.Forall2

namespace PartialBatch

/-- Whether an outcome is a success. -/
def Outcome.isSuccess : Outcome → Bool
  | success _ => true
  | failure _ => false

/-- The error of an outcome, if it is a failure. -/
def Outcome.error? : Outcome → Option Error
  | success _ => none
  | failure e => some e

/-! ## Lists in step -/

/-- Takes elements from the heads of two lists, each from the one that is chosen, until both are
empty and nothing is to be chosen. -/
def interleave {α : Type} : List Bool → List α → List α → Option (List α)
  | [], [], [] => some []
  | true :: choices, x :: xs, ys => (interleave choices xs ys).map (x :: ·)
  | false :: choices, xs, y :: ys => (interleave choices xs ys).map (y :: ·)
  | _, _, _ => none

namespace Batch

variable {callee : Callee} {hooks : Hooks} {s : Passage} {o : Outcome} {ms : List Message}
  {ss : List Passage} {outcomes : List (Message × Outcome)}

/-- **Successes and failures are a partition of the outcomes that keeps their order.** -/
theorem interleave_outcomes (outcomes : List (Message × Outcome)) :
    interleave (outcomes.map fun o => o.2.isSuccess)
      ((successes outcomes).map fun s => (s.1, .success s.2))
      ((failures outcomes).map fun f => (f.1, .failure f.2)) = some outcomes := by
  induction outcomes with
  | nil => rfl
  | cons first rest ih =>
    obtain ⟨m, o⟩ := first
    cases o with
    | success v =>
      change (interleave _ ((successes rest).map _) ((failures rest).map _)).map _ = _
      rw [ih]
      rfl
    | failure e =>
      change (interleave (false :: _) ((successes rest).map _) (_ :: (failures rest).map _)) = _
      rw [interleave, ih]
      rfl

/-- As many outcomes as successes and failures. -/
theorem length_successes_add (outcomes : List (Message × Outcome)) :
    (successes outcomes).length + (failures outcomes).length = outcomes.length := by
  induction outcomes with
  | nil => rfl
  | cons first rest ih =>
    obtain ⟨m, o⟩ := first
    cases o with
    | success v =>
      change (successes rest).length + 1 + (failures rest).length = rest.length + 1
      omega
    | failure e =>
      change (successes rest).length + ((failures rest).length + 1) = rest.length + 1
      omega

/-! ## Passages and outcomes -/

/-- Whether a passage that handler and hooks showed is recorded as it went. -/
structure Recorded (callee : Callee) (hooks : Hooks) (s : Passage) (o : Outcome) : Prop where
  /-- The handler is called on the message. -/
  handled : (callee s.message).Ends s.handled.events s.handled.result
  /-- The success hook is called if the handler returned, on what it returned. -/
  succeeded : Called (hooks.succeeded.map (· s.message)) s.handled.result.toOption s.succeeded
  /-- The failure hook is called if the message failed, on the error of the outcome. -/
  failed : Called (hooks.failed.map (· s.message)) o.error? s.failed
  /-- A success has what the handler returned, and the success hook did not raise. -/
  success_iff : ∀ v, o = .success v ↔
    s.handled.result = .ok v ∧ s.succeeded.bind Turn.error? = none
  /-- A failure has what the handler or the success hook raised. -/
  failure_iff : ∀ e, o = .failure e ↔
    s.handled.result = .error e ∨ s.succeeded.bind Turn.error? = some e
  /-- Between the turns, and after them, are lines of the log only. -/
  order : ∃ note last, s.events = s.handled.events ++ (s.succeeded.map Turn.events).getD [] ++
    note ++ (s.failed.map Turn.events).getD [] ++ last ∧
    ∀ event ∈ note ++ last, ∃ entry, event = ⟨.log entry, ()⟩
  /-- The error of a failure has a text. -/
  told : ∀ e, o = .failure e → ∃ t, e.text = .ok t

namespace Passage

/-- A value is produced if the handler returned it and the success hook did not raise. -/
theorem produced_eq_ok_iff {v : Value} : s.produced = .ok v ↔
    s.handled.result = .ok v ∧ s.succeeded.bind Turn.error? = none := by
  unfold produced
  cases s.handled.result with
  | error e => simp
  | ok w => cases s.succeeded.bind Turn.error? <;> simp

/-- Otherwise the error is what the handler or the success hook raised. -/
theorem Of.produced_eq_error_iff (h : s.Of callee hooks) {e : Error} : s.produced = .error e ↔
    s.handled.result = .error e ∨ s.succeeded.bind Turn.error? = some e := by
  have hcalled := h.succeeded
  unfold produced
  cases hresult : s.handled.result with
  | error f =>
    rw [hresult] at hcalled
    have hnone : s.succeeded = none := called_none_iff.1 hcalled
    simp [hnone]
  | ok w => cases s.succeeded.bind Turn.error? <;> simp

/-- What a verdict says about what was produced. -/
theorem produced_of_verdict (h : s.verdict = .ok o) :
    (∃ v, s.produced = .ok v ∧ o = .success v) ∨
      ∃ e t, s.produced = .error e ∧ noted e = .ok t ∧ o = .failure e := by
  unfold verdict at h
  split at h
  · rename_i v hproduced
    exact .inl ⟨v, hproduced, (Except.ok.inj h).symm⟩
  · rename_i e hproduced
    split at h
    · rename_i t hnoted
      cases hend : s.hookEnd with
      | ok _ =>
        rw [hend] at h
        exact .inr ⟨e, t, hproduced, hnoted, (Except.ok.inj h).symm⟩
      | error f => rw [hend] at h; cases h
    · cases h

/-- The turns of a passage come one after another, with lines of the log between and after
them. -/
theorem Of.order (h : s.Of callee hooks) (hverdict : s.verdict = .ok o) :
    ∃ note last, s.events = s.handled.events ++ (s.succeeded.map Turn.events).getD [] ++
      note ++ (s.failed.map Turn.events).getD [] ++ last ∧
      ∀ event ∈ note ++ last, ∃ entry, event = ⟨.log entry, ()⟩ := by
  have hfailed := h.failed
  unfold events
  obtain ⟨v, hv, -⟩ | ⟨e, t, he, hnoted, -⟩ := produced_of_verdict hverdict
  · have hnotified : s.notified = none := by simp only [notified, hv]
    rw [hnotified] at hfailed
    exact ⟨[], [], by simp [hv, called_none_iff.1 hfailed], by simp⟩
  · have hlast : ∃ last, s.aftermath = (s.failed.map Turn.events).getD [] ++ last ∧
        ∀ event ∈ last, ∃ entry, event = ⟨.log entry, ()⟩ := by
      unfold aftermath
      split
      · exact ⟨_, rfl, fun event hevent => ⟨_, List.mem_singleton.1 hevent⟩⟩
      · exact ⟨[], rfl, by simp⟩
    obtain ⟨last, haftermath, hlog⟩ := hlast
    refine ⟨[failureLine s.message e t], last, by simp [he, hnoted, haftermath], ?_⟩
    intro event hevent
    rcases List.mem_cons.1 hevent with rfl | hevent
    · exact ⟨_, rfl⟩
    · exact hlog event hevent

/-- **A passage with an outcome is recorded as it went.** -/
theorem Of.recorded (h : s.Of callee hooks) (hverdict : s.verdict = .ok o) :
    Recorded callee hooks s o := by
  have hfailed := h.failed
  have horder := h.order hverdict
  obtain ⟨v, hv, rfl⟩ | ⟨e, t, he, hnoted, rfl⟩ := produced_of_verdict hverdict
  · have hnotified : s.notified = none := by simp only [notified, hv]
    rw [hnotified] at hfailed
    refine ⟨h.handled, h.succeeded, hfailed, fun w => ?_, fun e => ?_, horder, fun e he => ?_⟩
    · rw [← produced_eq_ok_iff, hv, Outcome.success.injEq, Except.ok.injEq]
    · rw [← h.produced_eq_error_iff, hv]
      simp
    · cases he
  · have hnotified : s.notified = some e := by
      simp only [notified, he, hnoted]
      rfl
    rw [hnotified] at hfailed
    refine ⟨h.handled, h.succeeded, hfailed, fun w => ?_, fun f => ?_, horder,
      fun f hf => ⟨t, ?_⟩⟩
    · rw [← produced_eq_ok_iff, he]
      simp
    · rw [← h.produced_eq_error_iff, he, Outcome.failure.injEq, Except.error.injEq]
    · obtain rfl := Outcome.failure.inj hf
      unfold noted at hnoted
      split at hnoted
      · exact hnoted
      · cases hnoted

end Passage

/-- **Every message is recorded as its passage went**, in order. -/
theorem Passages.recorded (h : Passages callee hooks ms ss (.ok outcomes)) :
    List.Forall₂ (fun s o => o.1 = s.message ∧ Recorded callee hooks s o.2) ss outcomes := by
  generalize hx : (Except.ok outcomes : Except Error (List (Message × Outcome))) = x at h
  induction h generalizing outcomes with
  | done =>
    obtain rfl := Except.ok.inj hx
    exact .nil
  | halted => cases hx
  | @next s o ms ss y hof hverdict _ ih =>
    cases y with
    | error e => cases hx
    | ok others =>
      obtain rfl := Except.ok.inj hx
      exact .cons ⟨rfl, hof.recorded hverdict⟩ (ih rfl)

/-- The error of every recorded failure has a text. -/
theorem exists_text_of_recorded
    (h : List.Forall₂ (fun s o => o.1 = s.message ∧ Recorded callee hooks s o.2) ss outcomes)
    {f : Message × Error} (hf : f ∈ failures outcomes) : ∃ t, f.2.text = .ok t := by
  obtain ⟨m, e⟩ := f
  have hmem : (m, .failure e) ∈ outcomes := mem_failures.1 hf
  induction h with
  | nil => simp at hmem
  | @cons s o ss outcomes hso _ ih =>
    rcases List.mem_cons.1 hmem with rfl | hmem
    · exact hso.2.told e rfl
    · exact ih (mem_failures.2 hmem) hmem

end Batch

/-! ## The entries of a report -/

namespace Error

/-- What a report says about one failure. -/
def Tells (f : Message × Error) (entry : Value) : Prop :=
  ∃ t, f.2.text = .ok t ∧ entry = .object [("message_id", .text f.1.id),
    ("error_type", .text f.2.cls.name), ("error", .text t)]

/-- **The entries of a report can be made if each of its errors can be shown and has a text**, and
tell the failures one by one, in order. -/
theorem exists_reportEntries {failures : List (Message × Error)} {message : Text}
    (h : ∀ f ∈ failures, ∃ t, f.2.text = .ok t) (hlines : lines failures = .ok message)
    (values : List Value) (code : Value) :
    ∃ each, List.Forall₂ Tells failures each ∧ reportEntries failures values code =
      .ok [("message", .text message), ("error_code", code), ("failures", .list each),
        ("success_count", .int values.length)] := by
  have heach : ∃ each, List.Forall₂ Tells failures each ∧
      failures.mapM failureEntry = .ok each := by
    clear hlines
    induction failures with
    | nil => exact ⟨[], .nil, rfl⟩
    | cons f rest ih =>
      obtain ⟨each, htells, hmap⟩ := ih fun g hg => h g (List.mem_cons_of_mem _ hg)
      obtain ⟨t, ht⟩ := h f (List.mem_cons_self ..)
      refine ⟨_ :: each, .cons ⟨t, ht, rfl⟩ htells, ?_⟩
      rw [List.mapM_cons, hmap, failureEntry, ht]
      rfl
  obtain ⟨each, htells, hmap⟩ := heach
  refine ⟨each, htells, ?_⟩
  rw [reportEntries, hlines, hmap]
  rfl

end Error

/-! ## A whole batch -/

namespace Processor

variable {p : Processor} {ms : List Message} {handler : Handler} {callee : Callee}
  {ss : List Batch.Passage} {outcomes : List (Message × Outcome)} {handled rest : List Event}
  {x : Except Error (List Value)}

/-- Whether the books of a batch balance: passages, outcomes and what the batch ends in. -/
structure Books (p : Processor) (ms : List Message) (callee : Callee) (ss : List Batch.Passage)
    (outcomes : List (Message × Outcome)) (rest : List Event) (x : Except Error (List Value)) :
    Prop where
  /-- Each message had its passage, in order, -/
  messages : ss.map Batch.Passage.message = ms
  /-- and is recorded as that went. -/
  recorded : List.Forall₂ (fun s o => o.1 = s.message ∧ Batch.Recorded callee p.hooks s o.2)
    ss outcomes
  /-- Taking each outcome from its list gives the outcomes back, and leaves nothing. -/
  partition : interleave (outcomes.map fun o => o.2.isSuccess)
    ((Batch.successes outcomes).map fun s => (s.1, .success s.2))
    ((Batch.failures outcomes).map fun f => (f.1, .failure f.2)) = some outcomes
  /-- The outcomes are those of the batch, in order. -/
  batch : outcomes.map Prod.fst = ms
  /-- No message is in both lists, and none is left out. -/
  count : (Batch.successes outcomes).length + (Batch.failures outcomes).length = ms.length
  /-- What is returned are the values of the successes. -/
  returned : ∀ vs, x = .ok vs → vs = values outcomes
  /-- A report is that of the failures and the values, and has a message, unless the queue service
  raised it. -/
  reported : ∀ e, x = .error e → e.isReport = true →
    (e = .reported (Batch.failures outcomes) (values outcomes) ∧
      ∃ message, Error.lines (Batch.failures outcomes) = .ok message) ∨
      ∃ c ∈ calls rest, c.answer = .error e
  /-- The entries of a report with a message tell the failures one by one. -/
  told : ∀ code message, Error.lines (Batch.failures outcomes) = .ok message →
    ∃ each, List.Forall₂ Error.Tells (Batch.failures outcomes) each ∧
      Error.reportEntries (Batch.failures outcomes) (values outcomes) code =
        .ok [("message", .text message), ("error_code", code), ("failures", .list each),
          ("success_count", .int (values outcomes).length)]

/-- **The books of a batch balance.** If every message got its outcome, the messages went through
passages that are recorded as they went, the lists of successes and failures are in step with
them, and the batch returns or reports these. -/
theorem books_balance (hhandling : (p.handling ms handler).Ends handled (.ok outcomes))
    (h : (p.process ms handler).Ends (handled ++ rest) x) :
    ∃ resolving callee ss, handler.resolve.Ends resolving (.ok callee) ∧
      handled = resolving ++ ss.flatMap Batch.Passage.events ∧
      p.Books ms callee ss outcomes rest x := by
  have hconclude : (p.conclude outcomes).Ends rest x := by
    have hstages : p.process ms handler = p.handling ms handler >>= p.conclude :=
      (Run.bind_assoc ..).symm
    rw [hstages] at h
    exact (Run.ends_bind_append hhandling).1 h
  obtain ⟨e, -, heq⟩ | ⟨resolving, callee, ss, hresolve, hss, rfl⟩ := passages_of_handling hhandling
  · cases heq
  obtain ⟨hmessages, hbatch, -⟩ := hss.messages_eq
  have hrecorded := hss.recorded
  refine ⟨resolving, callee, ss, hresolve, rfl, ?_⟩
  refine ⟨hmessages, hrecorded, Batch.interleave_outcomes outcomes, hbatch, ?_, ?_, ?_, ?_⟩
  · rw [Batch.length_successes_add, ← hbatch, List.length_map]
  · intro vs hx
    cases concludes_of_ends hconclude with
    | acknowledged => exact (Except.ok.inj hx).symm
    | broken => cases hx
    | suppressed => exact (Except.ok.inj hx).symm
    | reported | unreported => cases hx
  · intro e hx hreport
    cases concludes_of_ends hconclude with
    | acknowledged => cases hx
    | broken _ hreconciliation =>
      obtain rfl := Except.error.inj hx
      obtain ⟨stop, hreconciled, hstop⟩ := Batch.reconciled_of_ends hreconciliation
      cases stop with
      | none => cases hstop
      | some f =>
        obtain rfl := Except.error.inj hstop
        exact .inr (hreconciled.report_raised hreport)
    | suppressed => cases hx
    | @reported _ message _ hlines =>
      exact .inl ⟨(Except.error.inj hx).symm, message, hlines⟩
    | unreported _ hlines =>
      obtain rfl := Except.error.inj hx
      have hown := (Error.raises_lines _ _ hlines).isOwn
      rw [hown.not_report] at hreport
      cases hreport
  · intro code message hlines
    have htexts (f : Message × Error) (hf : f ∈ Batch.failures outcomes) : ∃ t, f.2.text = .ok t :=
      Batch.exists_text_of_recorded hrecorded hf
    exact Error.exists_reportEntries htexts hlines _ code

/-- A batch whose messages have their outcomes, and a course of it from there to the report of two
of them. -/
theorem books_balance_sample : ∃ handled rest,
    (Batch.failures Sample.outcomes).map (fun f => f.1.id) = ["b", "c"] ∧
      (Sample.processor.handling Sample.orders Consumer.handler).Ends handled
        (.ok Sample.outcomes) ∧
      (Sample.processor.process Sample.orders Consumer.handler).Ends (handled ++ rest)
        (.error (.reported (Batch.failures Sample.outcomes) (values Sample.outcomes))) ∧
      ∃ resolving callee ss, Consumer.handler.resolve.Ends resolving (.ok callee) ∧
        handled = resolving ++ ss.flatMap Batch.Passage.events ∧
        Sample.processor.Books Sample.orders callee ss Sample.outcomes rest
          (.error (.reported (Batch.failures Sample.outcomes) (values Sample.outcomes))) := by
  obtain ⟨handled, hhandling⟩ := Sample.exists_handled
  have hconclude := Run.ends_exec (.service fun _ => .ok (.object []))
    (Sample.processor.conclude Sample.outcomes) ()
  have hend : ((Sample.processor.conclude Sample.outcomes).exec
      (.service fun _ => .ok (.object [])) ()).2.1 =
        .error (.reported (Batch.failures Sample.outcomes) (values Sample.outcomes)) := by
    decide +kernel
  rw [hend] at hconclude
  have h := ends_process.2 ⟨handled, Sample.outcomes, _, rfl, .concluded hhandling hconclude⟩
  exact ⟨handled, _, by decide +kernel, hhandling, h, books_balance hhandling h⟩

end Processor
end PartialBatch
