/-
# Cleanups that succeed

A request is fulfilled if its answer says so: none of its entries failed, or the queue has a redrive
policy that names a dead-letter queue. If all requests of a cleanup are fulfilled, and its messages
tell their queues and can be sent, then every message of the batch that succeeded or is not retryable
leaves its queue.

| message | sent | deleted |
| --- | --- | --- |
| succeeded | no | once |
| failed for good | once, to the dead-letter queue of its queue | once, after it was sent |
| failed, retryable | no | no |
-/

import PartialBatch.Proofs.Batch.Contract
import PartialBatch.Proofs.Batch.Order

namespace PartialBatch

/-- Whether a call has an answer, and that says it is fulfilled. -/
def Call.isFulfilled (c : Call) : Bool :=
  match c.request, c.answer with
  | _, .error _ => false
  | .attributes (.text queueUrl) _, .ok answer =>
    match QueueClient.policyIn queueUrl answer with
    | .ok (some policy) => (QueueAddress.ofArn? policy.target).isSome
    | _ => false
  | .attributes _ _, .ok _ => true
  | _, .ok answer =>
    match QueueClient.failedEntries answer with
    | .ok [] => true
    | _ => false

namespace Call

variable {c : Call}

/-- The answer to a fulfilled request of entries lists none of them. -/
theorem failedEntries_of_isFulfilled (h : c.isFulfilled = true)
    (hentries : c.request.isSend ∨ c.request.isDelete) :
    c.answer >>= QueueClient.failedEntries = .ok [] := by
  obtain ⟨r, answer⟩ := c
  cases answer with
  | error e => cases r <;> cases h
  | ok v =>
    have hlist (hv : (match QueueClient.failedEntries v with
        | .ok [] => true
        | _ => false) = true) : QueueClient.failedEntries v = .ok [] := by
      split at hv
      · assumption
      · cases hv
    cases r with
    | delete => exact hlist h
    | send => exact hlist h
    | attributes => exact hentries.elim False.elim False.elim

/-- The answer to a fulfilled reading of a redrive policy tells one with a dead-letter queue. -/
theorem exists_policy_of_isFulfilled {queueUrl : Text} {names : List Text}
    (h : c.isFulfilled = true) (hr : c.request = .attributes (.text queueUrl) names) :
    ∃ answer policy deadLetterUrl, c.answer = .ok answer ∧
      QueueClient.policyIn queueUrl answer = .ok (some policy) ∧
      policy.deadLetterUrl = .ok deadLetterUrl := by
  obtain ⟨r, answer⟩ := c
  obtain rfl : r = _ := hr
  cases answer with
  | error e => cases h
  | ok v =>
    unfold isFulfilled at h
    dsimp only at h
    split at h
    · rename_i policy hpolicy
      obtain ⟨a, ha⟩ := Option.isSome_iff_exists.1 h
      exact ⟨v, policy, a.url, rfl, hpolicy, by rw [RedrivePolicy.deadLetterUrl, ha]⟩
    · cases h

/-- An answer that fulfils a request can be read. -/
theorem readable_of_isFulfilled (h : c.isFulfilled = true) : c.Readable := by
  have hids (hentries : c.request.isSend ∨ c.request.isDelete) :
      ∃ ids, c.answer >>= Batch.failedIds = .ok ids := by
    rw [Batch.bind_failedIds, failedEntries_of_isFulfilled h hentries]
    exact ⟨[], rfl⟩
  unfold Readable
  cases hr : c.request with
  | delete => exact hids (.inr (hr ▸ trivial))
  | send => exact hids (.inl (hr ▸ trivial))
  | attributes url names =>
    cases url with
    | text queueUrl =>
      obtain ⟨answer, policy, deadLetterUrl, hanswer, hpolicy, hurl⟩ :=
        exists_policy_of_isFulfilled h hr
      refine ⟨some policy, by rw [hanswer]; exact hpolicy, ?_⟩
      rintro p hp
      obtain rfl := Option.some.inj hp
      exact ⟨deadLetterUrl, hurl⟩
    | _ => trivial

/-- An answer that fulfils a request lists no id. -/
theorem not_lists_of_isFulfilled {id : Text} (h : c.isFulfilled = true) (hsend : c.request.isSend) :
    ¬c.Lists id := by
  rintro ⟨entry, hentry, -⟩
  rw [failed, failedEntries_of_isFulfilled h (.inl hsend)] at hentry
  simp at hentry

end Call

/-! ## Messages on their way -/

/-- Whether an entry of a request carries a message: its id, its body, and its attributes in the
form of requests unless none remains. -/
def Message.Carries (m : Message) (entry : Value) : Prop :=
  ∃ es attributes, entry = .object es ∧
    Message.sendAttributes m.messageAttributes = .ok attributes ∧
    Entries.get? es "Id" = some (.text m.id) ∧ Entries.get? es "MessageBody" = some (.text m.body) ∧
    Entries.get? es "MessageAttributes" =
      if attributes.isEmpty then none else some (.object attributes)

/-- The entry of a send request carries its message. -/
theorem Message.carries_of_sendEntry {m : Message} {entry : Value} (h : m.sendEntry = .ok entry) :
    m.Carries entry := by
  unfold sendEntry at h
  cases hattributes : sendAttributes m.messageAttributes with
  | error e => rw [hattributes] at h; cases h
  | ok attributes =>
    rw [hattributes] at h
    obtain rfl := Except.ok.inj h
    refine ⟨_, attributes, rfl, hattributes, ?_⟩
    cases attributes <;> exact ⟨rfl, rfl, rfl⟩

/-- The entries of messages carry them, one by one. -/
theorem Message.carries_of_sendEntries {ms : List Message} {entries : List Value}
    (h : Message.sendEntries ms = .ok entries) : List.Forall₂ Message.Carries ms entries := by
  have hmap : ms.map Message.sendEntry = entries.map .ok := mapM_eq_ok.1 h
  rw [← List.forall₂_eq_eq_eq, List.forall₂_map_left_iff, List.forall₂_map_right_iff] at hmap
  exact hmap.imp fun m entry => carries_of_sendEntry

/-- The sends on behalf of a queue are among the calls. -/
theorem sendsWhile_sublist {u : Text} {active : Bool} {cs : List Call} :
    (sendsWhile u active cs).Sublist cs := by
  induction cs generalizing active with
  | nil => exact .slnil
  | cons c cs ih =>
    obtain ⟨r, answer⟩ := c
    cases r with
    | attributes => exact ih.cons _
    | delete => exact ih.cons _
    | send =>
      cases active with
      | true => exact ih.cons_cons _
      | false => exact ih.cons _

namespace Batch

/-- Whether calls have cleaned up after messages: those that succeeded and those that failed for
good. -/
structure Cleaned (succeeded final : List Message) (cs : List Call) : Prop where
  /-- From each queue its messages are deleted, each once. -/
  deleted : ∀ u, entriesOf (deletesFrom u cs) =
    ((succeeded ++ final).filter (Message.isFrom u)).map Message.deleteEntry
  /-- On behalf of each queue those of its messages that failed for good are sent, each once. -/
  sent : ∀ u, List.Forall₂ Message.Carries (final.filter (Message.isFrom u))
    (entriesOf (sendsFor u cs))
  /-- They are sent to the dead-letter queue that the redrive policy of their queue names. -/
  addressed : ∀ u, ∀ c ∈ sendsFor u cs, ∃ answer policy deadLetterUrl,
    policyReads u cs = [⟨QueueClient.policyRequest u, .ok answer⟩] ∧
      QueueClient.policyIn u answer = .ok (some policy) ∧
      policy.deadLetterUrl = .ok deadLetterUrl ∧ c.request.queueUrl = .text deadLetterUrl
  /-- They are deleted after they were sent. -/
  sent_first : ∀ before c after u, cs = before ++ c :: after →
    c.request.deletesFrom u = true →
      DeletesOf u (succeeded.filter (Message.isFrom u)) c ∨
        List.Forall₂ Message.Carries (final.filter (Message.isFrom u))
          (entriesOf (sendsFor u before))
  /-- Every call names the queue of a message, or is a send on behalf of one. -/
  named : ∀ c ∈ cs, ∃ u, (∃ m ∈ succeeded ++ final, m.queueUrl = .ok u) ∧
    (¬c.request.isSend ∧ c.request.queueUrl = .text u ∨ c ∈ sendsFor u cs)

variable {settings : Settings} {triage : Triage} {succeeded : List Message}
  {failed : List (Message × Error)} {cs : List Call} {stop : Option Error} {n : Nat}

/-- A reconciliation ends well if its requests are fulfilled, and its messages tell their queues
and can be sent. -/
theorem Reconciled.stop_eq_none (h : Reconciled settings triage succeeded failed cs stop)
    (hverdicts : ∀ f ∈ failed, ∃ final, triage.isNonRetryable f.2 = .ok final)
    (hstride : settings.maxBatchSize.stride = .ok n) (hn : n ≤ maxEntries)
    (hcalls : ∀ c ∈ cs, c.isFulfilled = true)
    (hurls : ∀ m ∈ succeeded ++ finals triage failed, ∃ u, m.queueUrl = .ok u)
    (hentries : ∀ m ∈ finals triage failed, ∃ entry, m.sendEntry = .ok entry) : stop = none := by
  cases stop with
  | none => rfl
  | some e =>
    obtain ⟨m, hobstructs⟩ := h.obstructed_of_stop hverdicts hstride hn fun c hc =>
      Call.readable_of_isFulfilled (hcalls c hc)
    cases hobstructs with
    | unlocated hm hurl =>
      obtain ⟨u, hu⟩ := hurls m hm
      cases hurl.symm.trans hu
    | unsendable hm _ _ _ hentry =>
      obtain ⟨entry, hok⟩ := hentries m hm
      cases hentry.symm.trans hok

/-- What is dealt with by fulfilled requests is released, and is sent to a dead-letter queue. -/
theorem Discharged.fulfilled {u : Text} {ms released : List Message}
    (h : Discharged settings u ms cs released)
    (hflag : settings.deleteNonRetryable.truthy = false)
    (hcalls : ∀ c ∈ cs, c.isFulfilled = true) :
    released = ms ∧ List.Forall₂ Message.Carries ms (entriesOf (sendsFor u cs)) ∧
      ∀ c ∈ sendsFor u cs, ∃ answer policy deadLetterUrl,
        policyReads u cs = [⟨QueueClient.policyRequest u, .ok answer⟩] ∧
          QueueClient.policyIn u answer = .ok (some policy) ∧
          policy.deadLetterUrl = .ok deadLetterUrl ∧ c.request.queueUrl = .text deadLetterUrl := by
  cases h with
  | discarded htrue => cases hflag.symm.trans htrue
  | idle _ hms _ hsends =>
    subst hms
    rw [hsends]
    exact ⟨rfl, .nil, by simp⟩
  | @redriven answer _ _ _ hreads hreleased =>
    have hread : ⟨QueueClient.policyRequest u, .ok answer⟩ ∈ policyReads u cs := by simp [hreads]
    obtain ⟨_, policy, _, hanswer, hpolicy, -⟩ :=
      Call.exists_policy_of_isFulfilled (hcalls _ (List.mem_filter.1 hread).1) rfl
    obtain rfl := Except.ok.inj hanswer
    have hfulfilled (c : Call) (hc : c ∈ sendsFor u cs) := hcalls c (sendsWhile_sublist.subset hc)
    generalize hfor : sendsFor u cs = sends at hreleased hfulfilled
    cases hreleased with
    | absent hnone => cases hnone.symm.trans hpolicy
    | present hpolicy hurl hto hentries =>
      refine ⟨?_, Message.carries_of_sendEntries hentries, fun c hc => ?_⟩
      · exact List.filter_eq_self.2 fun m _ => decide_eq_true fun c hc =>
          Call.not_lists_of_isFulfilled (hfulfilled c hc) (isSend_of_to hto c hc)
      · obtain ⟨es, hr⟩ := hto c hc
        exact ⟨answer, _, _, hreads, hpolicy, hurl, by rw [hr]; rfl⟩

/-- **A reconciliation whose requests are fulfilled cleans up.** -/
theorem Reconciled.cleaned (h : Reconciled settings triage succeeded failed cs none)
    (hflag : settings.deleteNonRetryable.truthy = false)
    (hcalls : ∀ c ∈ cs, c.isFulfilled = true) :
    Cleaned succeeded (finals triage failed) cs := by
  obtain ⟨more, hmore, hwhole⟩ := h.exists_whole
  have horderly := hwhole.orderly
  have hexact := h.exact
  refine ⟨fun u => ?_, fun u => ?_, fun u => ?_, ?_, ?_⟩
  · obtain ⟨released, hentries, hdischarged⟩ := hexact.deleted u
    rw [hentries, (hdischarged.fulfilled hflag hcalls).1, List.filter_append]
  · obtain ⟨released, -, hdischarged⟩ := hexact.deleted u
    exact (hdischarged.fulfilled hflag hcalls).2.1
  · obtain ⟨released, -, hdischarged⟩ := hexact.deleted u
    exact (hdischarged.fulfilled hflag hcalls).2.2
  · intro before c after u hcs hfrom
    exact (horderly.sends_first hflag before c after u hcs hfrom).imp_right fun hsent =>
      Message.carries_of_sendEntries hsent.1
  · intro c hc
    obtain ⟨u, hmessage, hnamed⟩ := hexact.named c hc
    exact ⟨u, hmessage, hnamed.imp_right And.left⟩

end Batch
end PartialBatch
