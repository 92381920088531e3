/-
# The queue is untouched until every message has its outcome

A batch may stop at many places before it calls the queue service, and at each of them it leaves
the queue as it was:

| it stops at | what happened | it ends in |
| --- | --- | --- |
| a record that is no message | nothing | the error of the first such record |
| the handler | what making the handler does | the error of that |
| a message | what the handler and the hooks do, up to this message | the error that came out |
| its end, without a failure | what the handler and the hooks do | the values |

What comes out of a message is an error that no consumer answers for, as it was raised
(`Passage.Of.verdict_of_escaped`), or the error of asking an error for a text that it has not.
Handler and hooks may call the queue service themselves; a passage adds no call to theirs
(`Passage.Of.calls_events`).
-/

import PartialBatch.Proofs.Batch.Isolation
import PartialBatch.Proofs.Batch.NoLoss

namespace PartialBatch

/-! ## Records -/

namespace Message

/-- A record that is refused is refused with one class of errors. -/
theorem cls_of_ofRecord {record : Value} {e : Error} (h : ofRecord record = .error e) :
    e.cls = .invalidMessage := by
  unfold ofRecord at h
  split at h
  · split at h
    · cases h
    · obtain rfl := Except.error.inj h
      rfl
  · obtain rfl := Except.error.inj h
    rfl

/-- The messages of an event that lists records are those of its records. -/
theorem ofEvent_eq {event : Value} {vs : List Value} (h : records event = .ok (.list vs)) :
    ofEvent event = vs.mapM ofRecord := by
  unfold ofEvent
  rw [h]
  rfl

end Message

namespace Batch

variable {callee : Callee} {hooks : Hooks} {s : Passage} {ms : List Message} {ss : List Passage}
  {x : Except Error (List (Message × Outcome))} {e : Error}

/-! ## One message -/

namespace Passage

/-- What the handler and the hooks do in a passage. -/
def turns (s : Passage) : List Event :=
  s.handled.events ++ (s.succeeded.map Turn.events).getD [] ++
    (s.failed.map Turn.events).getD []

/-- The failure hook has no turn unless a failure was noted. -/
theorem Of.failed_eq_none (h : s.Of callee hooks) (hnotified : s.notified = none) :
    s.failed = none := by
  have hfailed := h.failed
  rw [hnotified] at hfailed
  exact called_none_iff.1 hfailed

/-- **A passage makes no call of its own.** -/
theorem Of.calls_events (h : s.Of callee hooks) : calls s.events = calls s.turns := by
  unfold events turns
  cases hproduced : s.produced with
  | ok v => simp [h.failed_eq_none (by simp only [notified, hproduced])]
  | error e =>
    cases hnoted : noted e with
    | error e' =>
      have hnone : s.notified = none := by
        simp only [notified, hproduced, hnoted]
        rfl
      simp [hnoted, h.failed_eq_none hnone]
    | ok t =>
      have haftermath : calls s.aftermath = calls ((s.failed.map Turn.events).getD []) := by
        unfold aftermath
        split <;> simp [hookLine]
      simp [hnoted, failureLine, haftermath]

/-- **An error that no consumer answers for comes out of a passage as it was raised.** -/
theorem Of.verdict_of_escaped (h : s.Of callee hooks) (he : e ∈ s.raised)
    (hexc : e.isException = false) : s.verdict = .error e := by
  have hescaped : noted e = .error e := by simp [noted, hexc]
  rw [h.raised_eq] at he
  cases hproduced : s.produced with
  | ok v => simp [hproduced] at he
  | error f =>
    simp only [hproduced, List.mem_cons] at he
    rcases he with rfl | he
    · simp only [verdict, hproduced, hescaped]
    · -- the failure hook raised it, so the failure was noted
      have hhook : s.failed.bind Turn.error? = some e := by simpa using he
      cases hnoted : noted f with
      | error f' =>
        have hnone : s.notified = none := by
          simp only [notified, hproduced, hnoted]
          rfl
        rw [h.failed_eq_none hnone] at hhook
        cases hhook
      | ok t =>
        simp only [verdict, hproduced, hnoted, hookEnd, hookNoted, hhook, Option.map_some,
          hescaped]
        rfl

end Passage

/-! ## All messages -/

/-- An error that no consumer answers for ends the passages, with the message for which it was
raised as the last one. -/
theorem Passages.escaped (h : Passages callee hooks ms ss x) {k : Nat} (hs : ss[k]? = some s)
    (he : e ∈ s.raised) (hexc : e.isException = false) :
    x = .error e ∧ ss.map Passage.message = ms.take (k + 1) := by
  induction h generalizing k with
  | done => simp at hs
  | @halted s' ms f hof hverdict =>
    cases k with
    | succ k => simp at hs
    | zero =>
      obtain rfl : s' = s := by simpa using hs
      rw [hof.verdict_of_escaped he hexc] at hverdict
      obtain rfl := Except.error.inj hverdict
      exact ⟨rfl, by simp⟩
  | @next s' o ms ss y hof hverdict _ ih =>
    cases k with
    | zero =>
      obtain rfl : s' = s := by simpa using hs
      rw [hof.verdict_of_escaped he hexc] at hverdict
      cases hverdict
    | succ k =>
      obtain ⟨rfl, hmessages⟩ := ih (by simpa using hs)
      exact ⟨rfl, by rw [List.map_cons, hmessages, List.take_succ_cons]⟩

end Batch

/-! ## A whole batch -/

namespace Processor

variable {p : Processor} {ms : List Message} {handler : Handler} {t : List Event}
  {x : Except Error (List Value)}

/-- Whether a batch waits for all outcomes before it calls the queue service, if the passages of its
messages are those and end so. -/
structure Awaits (p : Processor) (ms : List Message) (ss : List Batch.Passage)
    (y : Except Error (List (Message × Outcome))) (outcomes : List (Message × Outcome))
    (rest : List Event) (x : Except Error (List Value)) : Prop where
  /-- The passages end in the outcomes, or in an error in which the batch ends with them. -/
  ended : y = .ok outcomes ∨ ∃ e, y = .error e ∧ x = .error e ∧ rest = []
  /-- The first messages are handed to the handler, in order and each once, -/
  handed : ss.map Batch.Passage.message <+: ms
  /-- and all that is called meanwhile the handler and the hooks call. -/
  foreign : ∀ s ∈ ss, calls s.events = calls s.turns
  /-- The batch calls only if every message has its outcome, and one of them is a failure. -/
  awaited : calls rest ≠ [] →
    ss.map Batch.Passage.message = ms ∧ outcomes.map Prod.fst = ms ∧
      ss.map Batch.Passage.verdict = outcomes.map (fun o => .ok o.2) ∧
      Batch.failures outcomes ≠ []
  /-- An error that no consumer answers for, raised for the message `k`, ends the batch as it is,
  after the messages up to that one and without another event. -/
  escaped : ∀ k s e, ss[k]? = some s → e ∈ s.raised → e.isException = false →
    x = .error e ∧ rest = [] ∧ ss.map Batch.Passage.message = ms.take (k + 1)

/-- Whether a course of a batch leaves the queue untouched until every message has its outcome: the
handler cannot be had, and that is all, or the messages go through their passages and the batch
awaits what these end in. -/
def Untouched (p : Processor) (ms : List Message) (handler : Handler) (t : List Event)
    (x : Except Error (List Value)) : Prop :=
  ∃ handled outcomes rest, t = handled ++ rest ∧ p.Stages ms handler handled outcomes rest x ∧
    ((∃ e, handler.resolve.Ends handled (.error e) ∧ rest = [] ∧ x = .error e) ∨
      ∃ resolving callee ss y, handler.resolve.Ends resolving (.ok callee) ∧
        Batch.Passages callee p.hooks ms ss y ∧
        handled = resolving ++ ss.flatMap Batch.Passage.events ∧ p.Awaits ms ss y outcomes rest x)

/-- Whether a batch of records ends in the error of the first that is refused, and nothing
happens. -/
def Refused (vs : List Value) (t : List Event) (x : Except Error (List Value)) : Prop :=
  ∃ before v after e, ∃ ns : List Message, vs = before ++ v :: after ∧
    before.map Message.ofRecord = ns.map .ok ∧ Message.ofRecord v = .error e ∧
    e.cls = .invalidMessage ∧ t = [] ∧ x = .error e

theorem untouched_of_process (h : (p.process ms handler).Ends t x) :
    p.Untouched ms handler t x := by
  obtain ⟨handled, outcomes, rest, rfl, hstages⟩ := ends_process.1 h
  refine ⟨handled, outcomes, rest, rfl, hstages, ?_⟩
  cases hstages with
  | aborted hhandling =>
    obtain ⟨f, hresolve, hf⟩ | ⟨resolving, callee, ss, hresolve, hss, rfl⟩ :=
      passages_of_handling hhandling
    · obtain rfl := Except.error.inj hf
      exact .inl ⟨_, hresolve, rfl, rfl⟩
    · refine .inr ⟨resolving, callee, ss, _, hresolve, hss, rfl, .inr ⟨_, rfl, rfl, rfl⟩,
        hss.messages_prefix, fun s hs => (hss.of_mem hs).calls_events,
        fun hne => (hne rfl).elim, ?_⟩
      intro k s f hs hf hexc
      obtain ⟨heq, hmessages⟩ := hss.escaped hs hf hexc
      obtain rfl := Except.error.inj heq
      exact ⟨rfl, rfl, hmessages⟩
  | concluded hhandling hconclude =>
    obtain ⟨f, -, hf⟩ | ⟨resolving, callee, ss, hresolve, hss, rfl⟩ :=
      passages_of_handling hhandling
    · cases hf
    refine .inr ⟨resolving, callee, ss, _, hresolve, hss, rfl, .inl rfl, hss.messages_prefix,
      fun s hs => (hss.of_mem hs).calls_events, fun hne => ?_, ?_⟩
    · obtain ⟨hmessages, houtcomes, hverdicts⟩ := hss.messages_eq
      exact ⟨hmessages, houtcomes, hverdicts,
        fun hfailures => hne (calls_of_conclude hconclude hfailures)⟩
    · intro k s f hs hf hexc
      cases (hss.escaped hs hf hexc).1

/-- **The queue is untouched until every message has its outcome.** This holds of a batch of
messages, and of the batch of an event that lists records, unless one of these is refused. -/
theorem queue_untouched :
    (∀ ms t x, (p.process ms handler).Ends t x → p.Untouched ms handler t x) ∧
      ∀ event vs t x, Message.records event = .ok (.list vs) →
        (p.processEvent event handler).Ends t x →
        Refused vs t x ∨
          ∃ ms : List Message, vs.map Message.ofRecord = ms.map .ok ∧
            p.Untouched ms handler t x := by
  refine ⟨fun ms t x => untouched_of_process, fun event vs t x hrecords h => ?_⟩
  unfold processEvent at h
  rw [Message.ofEvent_eq hrecords] at h
  obtain ⟨e, he, rfl, rfl⟩ | ⟨ms, hms, h⟩ := Run.ends_lift_bind.1 h
  · obtain ⟨before, v, after, ns, hvs, hbefore, hv⟩ := first_of_mapM_eq_error he
    exact .inl ⟨before, v, after, e, ns, hvs, hbefore, hv, Message.cls_of_ofRecord hv, rfl, rfl⟩
  · exact .inr ⟨ms, mapM_eq_ok.1 hms, untouched_of_process h⟩

end Processor

namespace Sample

/-- An error that no consumer answers for. -/
def quit : Error := .saying .systemExit "quit"

/-- A handler that quits at the message `b`. -/
def quitter : Handler :=
  .object none (some ⟨fun m => if m.id = "b" then .raise quit else .done .null, .done ()⟩)
    (.ok "quitter")

/-- A record, and what is none. -/
def records : List Value :=
  [.object [("messageId", .text "a"), ("receiptHandle", .text "a"),
      ("eventSourceARN", .text "arn:aws:sqs:eu:1:orders")], .null]

end Sample

namespace Processor

/-- A batch in which `b` makes the handler quit, and an event whose second record is none. -/
theorem queue_untouched_sample :
    (∃ t, (Sample.processor.process Sample.orders Sample.quitter).Ends t (.error Sample.quit) ∧
      calls t = [] ∧
      Sample.processor.Untouched Sample.orders Sample.quitter t (.error Sample.quit)) ∧
    ∃ e,
      (Sample.processor.processEvent (.object [("Records", .list Sample.records)])
        Sample.quitter).Ends [] (.error e) ∧
      (Refused Sample.records [] (.error e) ∨
        ∃ ms : List Message, Sample.records.map Message.ofRecord = ms.map .ok ∧
          Sample.processor.Untouched ms Sample.quitter [] (.error e)) := by
  have h := Run.ends_exec (.service Sample.service)
    (Sample.processor.process Sample.orders Sample.quitter) ()
  have hend : ((Sample.processor.process Sample.orders Sample.quitter).exec
      (.service Sample.service) ()).2.1 = .error Sample.quit := by decide +kernel
  rw [hend] at h
  have hevent : (Sample.processor.processEvent (.object [("Records", .list Sample.records)])
      Sample.quitter).Ends [] (.error (.invalidMessage ⟨[], .record "SqsMessage"⟩ .null)) :=
    ⟨rfl, by decide +kernel⟩
  exact ⟨⟨_, h, by decide +kernel, queue_untouched.1 _ _ _ h⟩,
    _, hevent, queue_untouched.2 _ _ _ _ rfl hevent⟩

end Processor
end PartialBatch
