/-
# What a batch with failures ends in

A batch with failures is due to end in its report, or in the values of the others if failures are
suppressed. If the queue service answers in order and every error has a verdict, two things can
still come in between: a message that tells no queue, or cannot be sent, and an error that cannot be
shown. They are looked at outside of any guard.

| data | looked at | what was done by then |
| --- | --- | --- |
| source of a message to delete or to move that names no queue | to group messages | nothing |
| attribute of a message to move that cannot be decoded | once its target is known | deletes of successes, earlier queues |
| error of a failed message that cannot be shown | to make the report | all of the cleanup |

A message of the first two rows obstructs the cleanup, and the batch ends in its `ValueError`; with
an error of the last row it ends in the error of showing it. With none of them the batch ends as it
is due. There is no fourth way (`reported_unless_obstructed`), and messages and errors of all three
kinds are possible (`not_reported`, `Error.exists_not_isShowable`).
-/

import PartialBatch.Proofs.Batch.Answers
import PartialBatch.Proofs.Batch.Interruption
import PartialBatch.Proofs.Batch.Verdicts
import PartialBatch.Proofs.Text.Numerals

namespace PartialBatch

/-! ## Data of a message that cannot be used -/

namespace Message

variable {m : Message} {e : Error}

/-- A source that names no queue is a wrong value. -/
theorem isA_of_queueUrl (h : m.queueUrl = .error e) : e.isA .valueError = true := by
  unfold queueUrl QueueAddress.urlOfArn at h
  split at h
  · cases h
  · obtain rfl := Except.error.inj h
    rfl

theorem isA_of_binary {t : Text} (h : binary t = .error e) : e.isA .valueError = true := by
  unfold binary at h
  split at h
  · cases h
  · obtain rfl := Except.error.inj h
    rfl
  · obtain rfl := Except.error.inj h
    rfl

theorem isA_of_sendAttribute {given : Entries} (h : sendAttribute given = .error e) :
    e.isA .valueError = true := by
  unfold sendAttribute at h
  dsimp only at h
  split at h
  · cases h
  split at h
  · cases h
  · rename_i _ _ t _ _
    cases hbytes : binary t with
    | error f =>
      rw [hbytes] at h
      obtain rfl := Except.error.inj h
      exact isA_of_binary hbytes
    | ok bytes => rw [hbytes] at h; cases h
  · cases h
  · cases h

theorem isA_of_sendAttributes {given : List (Text × Entries)}
    (h : sendAttributes given = .error e) : e.isA .valueError = true := by
  induction given with
  | nil => cases h
  | cons first rest ih =>
    obtain ⟨name, given⟩ := first
    unfold sendAttributes at h
    cases hfirst : sendAttribute given with
    | error f =>
      rw [hfirst] at h
      obtain rfl := Except.error.inj h
      exact isA_of_sendAttribute hfirst
    | ok converted =>
      cases hrest : sendAttributes rest with
      | error f =>
        rw [hfirst, hrest] at h
        obtain rfl := Except.error.inj h
        exact ih hrest
      | ok others =>
        rw [hfirst, hrest] at h
        cases converted <;> cases h

/-- An attribute that cannot be decoded is a wrong value. -/
theorem isA_of_sendEntry (h : m.sendEntry = .error e) : e.isA .valueError = true := by
  unfold sendEntry at h
  cases hattributes : sendAttributes m.messageAttributes with
  | error f =>
    rw [hattributes] at h
    obtain rfl := Except.error.inj h
    exact isA_of_sendAttributes hattributes
  | ok attributes => rw [hattributes] at h; cases h

end Message

namespace Batch

variable {size : Size} {queueUrl : Text} {groups : QueueGroups} {ms : List Message}
  {cs : List Call} {n : Nat} {e : Error}

/-- Whether a message stands in the way of a cleanup with its own data, and in which error. -/
inductive Obstructs (succeeded final : List Message) (cs : List Call) (m : Message) (e : Error) :
    Prop
  /-- It is to be deleted or to be moved, and tells no queue. -/
  | unlocated (hm : m ∈ succeeded ++ final) (hurl : m.queueUrl = .error e) :
      Obstructs succeeded final cs m e
  /-- It is to be moved, and cannot be sent to the dead-letter queue that there is. -/
  | unsendable {u : Text} {answer : Value} {policy : RedrivePolicy} (hm : m ∈ final)
      (hurl : m.queueUrl = .ok u) (hcall : ⟨QueueClient.policyRequest u, .ok answer⟩ ∈ cs)
      (hpolicy : QueueClient.policyIn u answer = .ok (some policy))
      (hentry : m.sendEntry = .error e) : Obstructs succeeded final cs m e

/-! ## Where a cleanup is obstructed -/

/-- Moving ends well if answers can be read and all messages can be sent. -/
theorem Moving.unsendable_of_error (h : Moving size queueUrl ms cs (.error e))
    (hstride : size.stride = .ok n) (hn : n ≤ maxEntries) (hread : ∀ c ∈ cs, c.Readable) :
    ∃ answer policy, ⟨QueueClient.policyRequest queueUrl, .ok answer⟩ ∈ cs ∧
      QueueClient.policyIn queueUrl answer = .ok (some policy) ∧
      Message.sendEntries ms = .error e := by
  generalize hx : (Except.error e : Except Error (List Message)) = x at h
  cases h with
  | unread hpolicy =>
    obtain ⟨policy?, hpolicy?, -⟩ := hread _ (List.mem_cons_self ..)
    cases hpolicy.symm.trans hpolicy?
  | absent => cases hx
  | unusable hpolicy hurl =>
    obtain ⟨policy?, hpolicy?, hurls⟩ := hread _ (List.mem_cons_self ..)
    obtain rfl := Except.ok.inj (hpolicy.symm.trans hpolicy?)
    obtain ⟨url, hurl'⟩ := hurls _ rfl
    cases hurl.symm.trans hurl'
  | unsendable hpolicy hurl hentries =>
    obtain rfl := Except.error.inj hx
    exact ⟨_, _, List.mem_cons_self .., hpolicy, hentries⟩
  | @unsent _ _ _ _ sends _ _ _ _ _ hissued =>
    have hsends (c : Call) (hc : c ∈ sends) : ∃ ids, c.answer >>= failedIds = .ok ids := by
      obtain ⟨es, hr, -⟩ := exists_of_mem_chunkPlan (hissued.request_mem hc)
      exact (hread c (List.mem_cons_of_mem _ hc)).of_send hr
    cases hissued.stop_eq_none (accepted_of_chunkPlan hstride hn) hsends
  | sent => cases hx

/-- Blocks end well if answers can be read and all messages of their queues can be sent. -/
theorem Redriven.unsendable_of_stop (h : Redriven size groups cs (some e))
    (hstride : size.stride = .ok n) (hn : n ≤ maxEntries) (hread : ∀ c ∈ cs, c.Readable) :
    ∃ group ∈ groups, ∃ answer policy, ⟨QueueClient.policyRequest group.1, .ok answer⟩ ∈ cs ∧
      QueueClient.policyIn group.1 answer = .ok (some policy) ∧
      Message.sendEntries group.2 = .error e := by
  generalize hs : some e = stop at h
  induction h with
  | done => cases hs
  | halted hblock =>
    obtain rfl := Option.some.inj hs
    cases hblock with
    | unmoved hmove =>
      exact ⟨_, List.mem_cons_self .., hmove.unsendable_of_error hstride hn hread⟩
    | moved hmove hdelete =>
      have hdone := hdelete.stop_eq_none (accepted_of_deletePlan hstride hn) fun c hc => by
        obtain ⟨es, hr, -⟩ := deletesOf_of_deletePlan hdelete hc
        exact (hread c (List.mem_append_right _ hc)).of_delete hr
      cases hdone
  | next hblock hrest ih =>
    obtain ⟨group, hgroup, answer, policy, hcall, hunsendable⟩ :=
      ih (fun c hc => hread c (List.mem_append_right _ hc)) hs
    exact ⟨group, List.mem_cons_of_mem _ hgroup, answer, policy, List.mem_append_right _ hcall,
      hunsendable⟩

section Reconciliation

variable {settings : Settings} {triage : Triage} {succeeded : List Message}
  {failed : List (Message × Error)} {m : Message} {stop : Option Error}

/-- **A reconciliation that does not end well is obstructed by a message**, if every error has a
verdict and all answers can be read. -/
theorem Reconciled.obstructed_of_stop (h : Reconciled settings triage succeeded failed cs (some e))
    (hverdicts : ∀ f ∈ failed, ∃ final, triage.isNonRetryable f.2 = .ok final)
    (hstride : settings.maxBatchSize.stride = .ok n) (hn : n ≤ maxEntries)
    (hread : ∀ c ∈ cs, c.Readable) :
    ∃ m, Obstructs succeeded (finals triage failed) cs m e := by
  generalize hs : some e = stop at h
  cases h with
  | undecided herror => cases herror.symm.trans (nonRetryable_of_verdicts hverdicts)
  | unlocated herror =>
    obtain rfl := Option.some.inj hs
    rcases herror with herror | herror
    · obtain ⟨m, hm, hurl⟩ := QueueGroups.exists_of_ofMessages_error herror
      exact ⟨m, .unlocated (List.mem_append_left _ hm) hurl⟩
    · obtain ⟨m, hm, hurl⟩ := QueueGroups.exists_of_ofMessages_error herror
      exact ⟨m, .unlocated (List.mem_append_right _ hm) hurl⟩
  | deleting _ _ _ hissued =>
    cases hs.trans (stop_eq_none_of_groupsPlan hissued hstride hn hread)
  | halted _ _ _ hissued =>
    cases stop_eq_none_of_groupsPlan hissued hstride hn hread
  | redriving _ _ hothers _ hredriven =>
    obtain rfl := hs
    obtain ⟨group, hgroup, answer, policy, hcall, hpolicy, hentries⟩ :=
      hredriven.unsendable_of_stop hstride hn fun c hc => hread c (List.mem_append_right _ hc)
    obtain ⟨before, m, after, entries, hms, -, hentry⟩ := first_of_mapM_eq_error hentries
    obtain ⟨hm, hurl⟩ := hothers.of_mem hgroup (m := m) (by simp [hms])
    exact ⟨m, .unsendable hm hurl (List.mem_append_right _ hcall) hpolicy hentry⟩

/-- Grouped messages tell their queues. -/
theorem not_unlocated {others : QueueGroups} {final : List Message} (hgroups : groups.Sorts succeeded)
    (hothers : others.Sorts final) (hm : m ∈ succeeded ++ final) (hurl : m.queueUrl = .error e) :
    False := by
  rcases List.mem_append.1 hm with hm | hm
  · obtain ⟨u, hu⟩ := hgroups.located m hm
    cases hurl.symm.trans hu
  · obtain ⟨u, hu⟩ := hothers.located m hm
    cases hurl.symm.trans hu

/-- A message that tells no queue keeps the reconciliation from the first call. -/
theorem Reconciled.eq_nil_of_unlocated (h : Reconciled settings triage succeeded failed cs stop)
    (hm : m ∈ succeeded ++ finals triage failed) (hurl : m.queueUrl = .error e) : cs = [] := by
  cases h with
  | undecided => rfl
  | unlocated => rfl
  | deleting _ hgroups hothers _ => exact (not_unlocated hgroups hothers hm hurl).elim
  | halted _ hgroups hothers _ => exact (not_unlocated hgroups hothers hm hurl).elim
  | redriving _ hgroups hothers _ _ => exact (not_unlocated hgroups hothers hm hurl).elim

/-- No message obstructs a reconciliation that ends well. -/
theorem Reconciled.not_obstructs (h : Reconciled settings triage succeeded failed cs none) :
    ¬Obstructs succeeded (finals triage failed) cs m e := by
  intro hobstructs
  cases hobstructs with
  | unlocated hm hurl =>
    generalize hs : (none : Option Error) = stop at h
    cases h with
    | undecided => cases hs
    | unlocated => cases hs
    | halted => cases hs
    | deleting _ hgroups hothers _ => exact not_unlocated hgroups hothers hm hurl
    | redriving _ hgroups hothers _ _ => exact not_unlocated hgroups hothers hm hurl
  | @unsendable u answer policy hm hurl hcall hpolicy hentry =>
    obtain ⟨released, -, hdischarged⟩ := h.exact.deleted u
    have hread : ⟨QueueClient.policyRequest u, .ok answer⟩ ∈ policyReads u cs :=
      List.mem_filter.2 ⟨hcall, decide_eq_true rfl⟩
    cases hdischarged with
    | discarded _ hreads _ => simp [hreads] at hread
    | idle _ _ hreads _ => simp [hreads] at hread
    | redriven _ _ hreads hreleased =>
      rw [hreads, List.mem_singleton] at hread
      obtain ⟨-, hanswer⟩ := Call.mk.inj hread
      obtain rfl := Except.ok.inj hanswer
      generalize sendsFor u cs = sends at hreleased
      cases hreleased with
      | absent hnone => cases hpolicy.symm.trans hnone
      | present _ _ _ hentries =>
        obtain ⟨entry, -, hok⟩ :=
          exists_entry hentries (List.mem_filter.2 ⟨hm, Message.isFrom_iff.2 hurl⟩)
        cases hentry.symm.trans hok

end Reconciliation
end Batch

/-! ## Courses of a batch -/

namespace Processor

variable {p : Processor} {ms : List Message} {handler : Handler}
  {outcomes : List (Message × Outcome)} {handled rest : List Event}
  {x : Except Error (List Value)}

/-- How a batch with failures ends, given the calls of its cleanup. -/
inductive Contract (p : Processor) (outcomes : List (Message × Outcome)) (cs : List Call) :
    Except Error (List Value) → Prop
  /-- All errors can be shown and no message was in the way: it ends as it is due. -/
  | due (hfree : ∀ m e, ¬Batch.Obstructs ((Batch.successes outcomes).map Prod.fst)
        (Batch.finals p.triage (Batch.failures outcomes)) cs m e)
      (hshown : ∀ f ∈ Batch.failures outcomes, f.2.IsShowable) :
      Contract p outcomes cs (p.due outcomes)
  /-- No message was in the way, but an error cannot be shown, and so there is no report. -/
  | unshown {m : Message} {e f : Error}
      (hfree : ∀ m e, ¬Batch.Obstructs ((Batch.successes outcomes).map Prod.fst)
        (Batch.finals p.triage (Batch.failures outcomes)) cs m e)
      (hm : (m, f) ∈ Batch.failures outcomes) (hshown : f.shown = .error e) (he : e.IsUnshown) :
      Contract p outcomes cs (.error e)
  /-- A message was in the way. One that tells no queue keeps all others on theirs. -/
  | obstructed {m : Message} {e : Error}
      (hm : Batch.Obstructs ((Batch.successes outcomes).map Prod.fst)
        (Batch.finals p.triage (Batch.failures outcomes)) cs m e)
      (he : e.isA .valueError = true) (hnone : (∃ f, m.queueUrl = .error f) → cs = []) :
      Contract p outcomes cs (.error e)

/-- **A batch with failures ends as it is due, unless a message obstructs its cleanup or an error
cannot be shown.** If the queue service answers in order and no code stands in the way of a verdict,
then the batch ends in its report, or in the values if failures are suppressed; or it ends in a
`ValueError` of a message that obstructs the cleanup; or the cleanup is done and it ends in the error
of showing an error. -/
theorem reported_unless_obstructed
    (hhandling : (p.handling ms handler).Ends handled (.ok outcomes))
    (h : (p.process ms handler).Ends (handled ++ rest) x)
    (hfailures : Batch.failures outcomes ≠ [])
    (hcodes : ∀ f ∈ Batch.failures outcomes, f.2.isComparable = true)
    (hsize : ∀ s, p.settings.maxBatchSize ≠ .float s)
    (hanswers : ∀ c ∈ calls rest, c.isInOrder = true) :
    p.Contract outcomes (calls rest) x := by
  obtain ⟨stop, hreconciled, rfl⟩ :=
    reconciled_of_failures ((ends_process_append hhandling).1 h) hfailures
  cases stop with
  | none =>
    have hfree (m : Message) (e : Error) := hreconciled.not_obstructs (m := m) (e := e)
    change p.Contract outcomes (calls rest) (p.ending outcomes)
    cases hlines : Error.lines (Batch.failures outcomes) with
    | ok lines =>
      rw [ending_of_lines hlines]
      exact .due hfree (Error.exists_lines_iff.1 ⟨lines, hlines⟩)
    | error e =>
      rw [ending_of_lines_eq_error hlines]
      obtain ⟨f, hf, hshown⟩ := Error.exists_of_lines_eq_error hlines
      exact .unshown hfree hf hshown (Error.raises_lines _ e hlines)
  | some e =>
    obtain ⟨n, hstride, hn⟩ := p.settings.exists_stride hsize
    obtain ⟨m, hobstructs⟩ := hreconciled.obstructed_of_stop
      (fun f hf => Triage.exists_isNonRetryable (hcodes f hf)) hstride hn
      fun c hc => Call.readable_of_isInOrder (hanswers c hc)
    refine .obstructed hobstructs ?_ ?_
    · cases hobstructs with
      | unlocated _ hurl => exact Message.isA_of_queueUrl hurl
      | unsendable _ _ _ _ hentry => exact Message.isA_of_sendEntry hentry
    · rintro ⟨f, hf⟩
      cases hobstructs with
      | unlocated hm _ => exact hreconciled.eq_nil_of_unlocated hm hf
      | unsendable _ hurl => cases hf.symm.trans hurl

/-- A batch whose messages tell their queue and can be sent, and whose errors can be shown: it
ends in its report. -/
theorem reported_unless_obstructed_sample : ∃ handled,
    (Sample.processor.handling Sample.orders Consumer.handler).Ends handled
        (.ok Sample.outcomes) ∧
      (Sample.processor.process Sample.orders Consumer.handler).Ends
        (handled ++ Sample.concluding Sample.outcomes Sample.service)
        (Sample.processor.due Sample.outcomes) ∧
      Batch.failures Sample.outcomes ≠ [] ∧
      (∀ f ∈ Batch.failures Sample.outcomes, f.2.isComparable = true) ∧
      (∀ s, Sample.processor.settings.maxBatchSize ≠ .float s) ∧
      (∀ c ∈ calls (Sample.concluding Sample.outcomes Sample.service), c.isInOrder = true) ∧
      (∀ m e, ¬Batch.Obstructs ((Batch.successes Sample.outcomes).map Prod.fst)
        (Batch.finals Sample.processor.triage (Batch.failures Sample.outcomes))
        (calls (Sample.concluding Sample.outcomes Sample.service)) m e) ∧
      ∀ f ∈ Batch.failures Sample.outcomes, f.2.IsShowable := by
  obtain ⟨handled, hhandling⟩ := Sample.exists_handled
  have hconclude := Run.ends_exec (.service Sample.service)
    (Sample.processor.conclude Sample.outcomes) ()
  have hend : ((Sample.processor.conclude Sample.outcomes).exec
      (.service Sample.service) ()).2.1 = Sample.processor.due Sample.outcomes := by decide +kernel
  rw [hend] at hconclude
  have h := (ends_process_append hhandling).2 hconclude
  have hfailures : Batch.failures Sample.outcomes ≠ [] := by decide +kernel
  have hcodes : ∀ f ∈ Batch.failures Sample.outcomes, f.2.isComparable = true := by
    decide +kernel
  have hsize (s : Binary64) : Sample.processor.settings.maxBatchSize ≠ .float s := nofun
  have hanswers : ∀ c ∈ calls (Sample.concluding Sample.outcomes Sample.service),
      c.isInOrder = true := by decide +kernel
  refine ⟨handled, hhandling, h, hfailures, hcodes, hsize, hanswers, ?_⟩
  have hcontract := reported_unless_obstructed hhandling h hfailures hcodes hsize hanswers
  have hdue : Sample.processor.due Sample.outcomes =
      .error (.reported (Batch.failures Sample.outcomes) (values Sample.outcomes)) := rfl
  generalize hx : Sample.processor.due Sample.outcomes = x at hcontract
  -- a report is neither a wrong value nor an error of showing one
  cases hcontract with
  | due hfree hshown => exact ⟨hfree, hshown⟩
  | unshown _ _ _ he =>
    obtain rfl := Except.error.inj (hdue.symm.trans hx)
    obtain hwrong | hdeep := he.isA
    · cases hwrong
    · cases hdeep
  | obstructed _ hwrong =>
    obtain rfl := Except.error.inj (hdue.symm.trans hx)
    cases hwrong

end Processor

/-! ## Data that replace the report -/

/-- **An error may have a text and still not be shown**: the text of an operating system error has
two of its arguments, and a third may be an integer of too many digits. -/
theorem Error.exists_not_isShowable :
    ∃ e : Error, e.isA .osError = true ∧ (∃ t, e.text = .ok t) ∧ ¬e.IsShowable := by
  refine ⟨.ordinary .osError [.int 5, .text "a", .null, .int (10 ^ Text.maxDigits : Nat)] [] none,
    rfl, ⟨_, rfl⟩, fun hshowable => ?_⟩
  cases hshowable with
  | ordinary h =>
    cases h _ (List.mem_of_getLast? rfl) with
    | int hlength =>
      have hlt := Text.lt_pow_length_ofNat (10 ^ Text.maxDigits)
      exact Nat.not_le.2 hlt (Nat.pow_le_pow_right (by decide) hlength)

namespace Sample

/-- A message whose source is no queue. -/
def stray : Message := { order "b" "\x7b\x7d" with source := "arn:aws:sns:eu:1:topic" }

/-- A record, a record of another source, and a body that is no record. -/
def strays : List Message := [order "a" "\x7b\x7d", stray, order "c" "[]"]

/-- Their outcomes. -/
def strayOutcomes : List (Message × Outcome) :=
  let returned (id : Text) : Outcome :=
    .success (.object [("messageId", .text id), ("status", .text "success")])
  [(order "a" "\x7b\x7d", returned "a"), (stray, returned "b"),
    (order "c" "[]", .failure (malformed "c"))]

/-- A message with an attribute of a single base64 digit, and a body that is no record. -/
def garbled : Message :=
  { order "b" "[]" with
    messageAttributes := [("k", [("dataType", .text "Binary"), ("binaryValue", .text "A")])] }

/-- A record and that message. -/
def garbledOrders : List Message := [order "a" "\x7b\x7d", garbled]

/-- Their outcomes. -/
def garbledOutcomes : List (Message × Outcome) :=
  [(order "a" "\x7b\x7d",
      .success (.object [("messageId", .text "a"), ("status", .text "success")])),
    (garbled, .failure (malformed "b"))]

end Sample

namespace Processor

/-- **A single message can replace the report.** A source of `b` that names no queue ends the batch
in a `ValueError` without a call, although `b` succeeded, `a` was to be deleted and `c` to be moved. An
attribute of `b` that cannot be decoded does so after `a` was deleted and the redrive policy was
read. -/
theorem not_reported :
    (∃ handled rest e,
      (Sample.processor.handling Sample.strays Consumer.handler).Ends handled
          (.ok Sample.strayOutcomes) ∧
        Batch.failures Sample.strayOutcomes = [(Sample.order "c" "[]", Sample.malformed "c")] ∧
        (Sample.processor.process Sample.strays Consumer.handler).Ends (handled ++ rest)
          (.error e) ∧
        calls rest = [] ∧ .error e ≠ Sample.processor.due Sample.strayOutcomes) ∧
    ∃ handled rest e,
      (Sample.processor.handling Sample.garbledOrders Consumer.handler).Ends handled
          (.ok Sample.garbledOutcomes) ∧
        Batch.failures Sample.garbledOutcomes = [(Sample.garbled, Sample.malformed "b")] ∧
        (Sample.processor.process Sample.garbledOrders Consumer.handler).Ends (handled ++ rest)
          (.error e) ∧
        (calls rest).map Call.request = Sample.requests.take 2 ∧
        (∀ c ∈ calls rest, c.isInOrder = true) ∧
        .error e ≠ Sample.processor.due Sample.garbledOutcomes := by
  have hhandling (ms : List Message) := Run.ends_exec (.service Sample.service)
    (Sample.processor.handling ms Consumer.handler) ()
  have hconclude (outcomes : List (Message × Outcome)) := Run.ends_exec (.service Sample.service)
    (Sample.processor.conclude outcomes) ()
  have hstrays : ((Sample.processor.handling Sample.strays Consumer.handler).exec
      (.service Sample.service) ()).2.1 = .ok Sample.strayOutcomes := by decide +kernel
  have hgarbled : ((Sample.processor.handling Sample.garbledOrders Consumer.handler).exec
      (.service Sample.service) ()).2.1 = .ok Sample.garbledOutcomes := by decide +kernel
  have hlost : ((Sample.processor.conclude Sample.strayOutcomes).exec
      (.service Sample.service) ()).2.1 = .error (.saying .valueError
        "Not an SQS queue ARN: \x27arn:aws:sns:eu:1:topic\x27") := by decide +kernel
  have hundecoded : ((Sample.processor.conclude Sample.garbledOutcomes).exec
      (.service Sample.service) ()).2.1 =
        .error (.saying .decodingError (Base64.Fault.lone 1).text) := by
    decide +kernel
  refine ⟨⟨_, _, _, hstrays ▸ hhandling _, rfl,
    (ends_process_append (hstrays ▸ hhandling _)).2 (hlost ▸ hconclude _), by decide +kernel,
    by decide +kernel⟩, _, _, _, hgarbled ▸ hhandling _, rfl,
    (ends_process_append (hgarbled ▸ hhandling _)).2 (hundecoded ▸ hconclude _),
    by decide +kernel, by decide +kernel, by decide +kernel⟩

end Processor
end PartialBatch
