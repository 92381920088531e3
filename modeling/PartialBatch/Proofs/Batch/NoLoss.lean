/-
# No message is lost

A message that a processor deletes is dealt with: it succeeded, or it failed for good and
was to be deleted, or it failed for good and has a copy in the dead-letter queue of its queue
(`Settled`). This holds for every entry of every delete request of every course of a batch,
however it ends and whatever the queue service answers.

The case of a copy is the one that takes an argument. Deletes of moved messages stand at the end
of the block of their queue, after all its sends, and the ids that the answers to these listed
are all known by then (`Block.moved_of_delete`). Blocks of other queues come before or after, and
no send there is on behalf of this queue (`Redriven.moved_of_delete`).

If the ids of a queue are distinct, an entry belongs to one message, and a failure that may be
handled again is in no request at all.
-/

import PartialBatch.Proofs.Batch.Blocks
import PartialBatch.Proofs.Batch.Passages

namespace PartialBatch
namespace Batch

variable {size : Size} {queueUrl u : Text} {groups : QueueGroups} {ms moved : List Message}
  {m : Message} {cs ds before before' after all all' : List Call} {c : Call}
  {stop : Option Error}

/-- Whether a message of a queue was moved: before a call its entry was sent to the dead-letter
queue that the redrive policy of its queue names, and that request was answered; and among all
calls, no answer to a send for the queue lists its id as failed. -/
structure Moved (before all : List Call) (queueUrl : Text) (m : Message) : Prop where
  sent : ∃ answer policy deadLetterUrl entry entries reply,
    ⟨QueueClient.policyRequest queueUrl, .ok answer⟩ ∈ before ∧
      QueueClient.policyIn queueUrl answer = .ok (some policy) ∧
      policy.deadLetterUrl = .ok deadLetterUrl ∧ m.sendEntry = .ok entry ∧
      ⟨.send (.text deadLetterUrl) (.list entries), .ok reply⟩ ∈ sendsFor queueUrl before ∧
      entry ∈ entries
  unlisted : ∀ c ∈ sendsFor queueUrl all, ¬c.Lists m.id

/-- Calls that hold no send for a queue do not change what was moved from it. -/
theorem Moved.mono (h : Moved before all queueUrl m) (hsub : before ⊆ before')
    (hbefore : sendsFor queueUrl before' = sendsFor queueUrl before)
    (hall : sendsFor queueUrl all' = sendsFor queueUrl all) : Moved before' all' queueUrl m where
  sent := by
    obtain ⟨answer, policy, url, entry, entries, reply, hanswer, hpolicy, hurl, hentry, hsend,
      hmem⟩ := h.sent
    exact ⟨answer, policy, url, entry, entries, reply, hsub hanswer, hpolicy, hurl, hentry,
      hbefore ▸ hsend, hmem⟩
  unlisted := hall ▸ h.unlisted

/-! ## Messages that were moved -/

/-- What a list of entries for messages has for one of them. -/
theorem exists_entry {entries : List Value} (h : Message.sendEntries ms = .ok entries)
    (hm : m ∈ ms) : ∃ entry ∈ entries, m.sendEntry = .ok entry := by
  have hmem : m.sendEntry ∈ entries.map Except.ok := mapM_eq_ok.1 h ▸ List.mem_map_of_mem hm
  obtain ⟨entry, hentry, heq⟩ := List.mem_map.1 hmem
  exact ⟨entry, hentry, heq.symm⟩

/-- An entry that a plan in chunks was to send is in a request that was answered. -/
theorem exists_request {request : Value → Request} {entries : List Value} {entry : Value}
    {β : Type} {read : Value → Except Error β} {bs : List β}
    (h : Issued read (chunkPlan request entries size) cs bs none) (hentry : entry ∈ entries) :
    ∃ es reply, ⟨request (.list es), .ok reply⟩ ∈ cs ∧ entry ∈ es := by
  have hplan : (cs.map Call.request).map .ok = chunkPlan request entries size := by
    rw [List.map_map]
    exact h.requests_eq
  obtain ⟨ess, hess, rfl⟩ := flatten_of_chunkPlan hplan
  obtain ⟨es, hes, hmem⟩ := List.mem_flatten.1 hentry
  have hin : request (.list es) ∈ cs.map Call.request := by
    rw [hess]
    exact List.mem_map_of_mem (f := fun es => request (.list es)) hes
  obtain ⟨⟨r, answer⟩, hc, rfl⟩ := List.mem_map.1 hin
  obtain ⟨reply, b, hanswer, -⟩ := h.exists_answer hc
  exact ⟨es, reply, hanswer ▸ hc, hmem⟩

/-- What was moved is a part of the messages, and has been sent when the moving ends. -/
theorem Moving.moved_of_mem (h : Moving size queueUrl ms cs (.ok moved)) (hm : m ∈ moved) :
    m ∈ ms ∧ Moved cs cs queueUrl m := by
  generalize hx : (Except.ok moved : Except Error (List Message)) = x at h
  obtain ⟨answer', sends, hcs, hsends⟩ := h.exists_eq_cons
  have hfor : sendsFor queueUrl cs = sends := by
    rw [hcs, sendsFor, sendsWhile_policyRequest, sendsWhile_sends fun c hc => (hsends c hc).isSend]
    simp
  cases h with
  | unread | unusable | unsendable | unsent => cases hx
  | absent =>
    obtain rfl := Except.ok.inj hx
    simp at hm
  | @sent answer policy deadLetterUrl entries cs idss hpolicy hurl hentries hissued =>
    obtain rfl := Except.ok.inj hx
    obtain ⟨-, rfl⟩ := List.cons.inj hcs
    obtain ⟨hms, hunlisted⟩ := mem_unlisted.1 hm
    obtain ⟨entry, hentry, heq⟩ := exists_entry hentries hms
    obtain ⟨es, reply, hc, hmem⟩ := exists_request hissued hentry
    refine ⟨hms, ⟨answer, policy, deadLetterUrl, entry, es, reply, List.mem_cons_self .., hpolicy,
      hurl, heq, ?_, hmem⟩, ?_⟩
    · rw [hfor]
      exact hc
    · rw [hfor]
      exact hunlisted

/-! ## Deletes of what was moved -/

/-- A delete in a block is for messages that were moved before it. -/
theorem Block.moved_of_delete (h : Block size queueUrl ms cs stop) (hcs : cs = before ++ c :: after)
    (hdelete : c.request.isDelete) : ∃ es, c.request = .delete (.text queueUrl) (.list es) ∧
      ∀ entry ∈ es, ∃ m ∈ ms, entry = m.deleteEntry ∧ Moved before cs queueUrl m := by
  cases h with
  | unmoved hmove =>
    have hc : c ∈ cs := hcs ▸ List.mem_append_right _ (List.mem_cons_self ..)
    exact absurd hdelete (hmove.not_isDelete hc)
  | @moved moved cs ds lists _ hmove hissued =>
    obtain ⟨mid, rfl, -⟩ | ⟨mid, rfl, rfl⟩ := split_append hcs
    · have hc : c ∈ before ++ c :: mid := List.mem_append_right _ (List.mem_cons_self ..)
      exact absurd hdelete (hmove.not_isDelete hc)
    have hds (d : Call) (hd : d ∈ mid ++ c :: after) : DeletesOf queueUrl moved d :=
      deletesOf_of_deletePlan hissued hd
    obtain ⟨es, hr, hes⟩ := hds c (List.mem_append_right _ (List.mem_cons_self ..))
    refine ⟨es, hr, fun entry hentry => ?_⟩
    obtain ⟨m, hm, rfl⟩ := hes entry hentry
    obtain ⟨hms, hmoved⟩ := hmove.moved_of_mem hm
    -- what is deleted after the sends adds nothing to them
    have hdelete (d : Call) (hd : d ∈ mid ++ c :: after) := (hds d hd).isDelete
    refine ⟨m, hms, rfl, hmoved.mono (List.subset_append_left ..) ?_ ?_⟩
    · exact sendsWhile_append_deletes fun d hd => hdelete d (List.mem_append_left _ hd)
    · exact sendsWhile_append_deletes hdelete

/-- **A delete among the blocks is for messages that were moved before it.** -/
theorem Redriven.moved_of_delete (h : Redriven size groups cs stop)
    (hnodup : (groups.map Prod.fst).Nodup) (hcs : cs = before ++ c :: after)
    (hdelete : c.request.isDelete) :
    ∃ group ∈ groups, ∃ es, c.request = .delete (.text group.1) (.list es) ∧
      ∀ entry ∈ es, ∃ m ∈ group.2, entry = m.deleteEntry ∧ Moved before cs group.1 m := by
  induction h generalizing before with
  | done => simp at hcs
  | halted hblock =>
    obtain ⟨es, hr, hes⟩ := hblock.moved_of_delete hcs hdelete
    exact ⟨_, List.mem_cons_self .., es, hr, hes⟩
  | @next queueUrl ms groups cs ds stop hblock hrest ih =>
    rw [List.map_cons, List.nodup_cons] at hnodup
    obtain ⟨sends, -, -, hsends⟩ := hblock.sendsWhile_append
    obtain ⟨mid, rfl, rfl⟩ | ⟨mid, rfl, rfl⟩ := split_append hcs
    · obtain ⟨es, hr, hes⟩ := hblock.moved_of_delete rfl hdelete
      refine ⟨_, List.mem_cons_self .., es, hr, fun entry hentry => ?_⟩
      obtain ⟨m, hm, rfl, hmoved⟩ := hes entry hentry
      -- later blocks are of other queues, and send nothing for this one
      refine ⟨m, hm, rfl, hmoved.mono (List.Subset.refl _) rfl ?_⟩
      have halone := hsends queueUrl false []
      rw [List.append_nil, sendsWhile_nil, List.append_nil] at halone
      rw [sendsFor, hsends, hrest.sendsWhile_eq_nil hnodup.1, List.append_nil, sendsFor, halone]
    · obtain ⟨group, hgroup, es, hr, hes⟩ := ih hnodup.2 rfl
      refine ⟨group, List.mem_cons_of_mem _ hgroup, es, hr, fun entry hentry => ?_⟩
      obtain ⟨m, hm, rfl, hmoved⟩ := hes entry hentry
      have hmem : group.1 ∈ groups.map Prod.fst := List.mem_map_of_mem hgroup
      have hne : queueUrl ≠ group.1 := fun heq => hnodup.1 (heq ▸ hmem)
      have hskip (rest : List Call) : sendsFor group.1 (cs ++ rest) = sendsFor group.1 rest := by
        rw [sendsFor, hsends, if_neg hne, decide_eq_false hne]
        rfl
      exact ⟨m, hm, rfl, hmoved.mono (List.subset_append_right ..) (hskip _) (hskip _)⟩

/-! ## Reconciliations -/

theorem mem_finals {triage : Triage} {failed : List (Message × Error)} :
    m ∈ finals triage failed ↔ ∃ e, (m, e) ∈ failed ∧ triage.isNonRetryable e = .ok true := by
  simp [finals]

section Reconciliation

variable {settings : Settings} {triage : Triage} {succeeded : List Message}
  {failed : List (Message × Error)}

/-- A delete in the plan for sorted messages is for messages of its queue. -/
theorem message_of_groupsPlan {lists : List (List Value)} (hgroups : groups.Sorts ms)
    (hissued : Issued QueueClient.failedEntries (groupsPlan size groups) cs lists stop)
    (hc : c ∈ cs) : ∃ u es, c.request = .delete (.text u) (.list es) ∧
      ∀ entry ∈ es, ∃ m ∈ ms, m.queueUrl = .ok u ∧ entry = m.deleteEntry := by
  obtain ⟨group, hgroup, es, hr, hes⟩ := deletesOf_of_groupsPlan hissued hc
  refine ⟨group.1, es, hr, fun entry hentry => ?_⟩
  obtain ⟨m, hm, rfl⟩ := hes entry hentry
  obtain ⟨hmem, hurl⟩ := hgroups.of_mem hgroup hm
  exact ⟨m, hmem, hurl, rfl⟩

/-- **A delete of a reconciliation is for messages that succeeded or are not retryable**; those
that are not discarded were moved before it. -/
theorem Reconciled.of_delete (h : Reconciled settings triage succeeded failed cs stop)
    (hcs : cs = before ++ c :: after) (hdelete : c.request.isDelete) :
    ∃ u es, c.request = .delete (.text u) (.list es) ∧ ∀ entry ∈ es, ∃ m,
      m.queueUrl = .ok u ∧ entry = m.deleteEntry ∧ (m ∈ succeeded ∨ m ∈ finals triage failed ∧
        (settings.deleteNonRetryable.truthy = true ∨
          settings.deleteNonRetryable.truthy = false ∧ Moved before cs u m)) := by
  have hc : c ∈ cs := hcs ▸ List.mem_append_right _ (List.mem_cons_self ..)
  cases h with
  | undecided => simp at hc
  | unlocated => simp at hc
  | @deleting groups others _ _ _ hflag hgroups hothers hissued =>
    obtain ⟨group, hgroup, es, hr, hes⟩ := deletesOf_of_groupsPlan hissued hc
    refine ⟨group.1, es, hr, fun entry hentry => ?_⟩
    obtain ⟨m, hm, rfl⟩ := hes entry hentry
    have hm' : m.queueUrl = .ok group.1 ∧ (m ∈ succeeded ∨ m ∈ finals triage failed) := by
      rcases List.mem_append.1 hgroup with hgroup | hgroup
      · obtain ⟨g, hg, rfl⟩ := List.mem_map.1 hgroup
        rcases List.mem_append.1 hm with hm | hm
        · exact (hgroups.of_mem hg hm).symm.imp_right .inl
        · rw [hothers.get_eq, List.mem_filter, Message.isFrom_iff] at hm
          exact ⟨hm.2, .inr hm.1⟩
      · exact (hothers.of_mem (List.mem_filter.1 hgroup).1 hm).symm.imp_right .inr
    exact ⟨m, hm'.1, rfl, hm'.2.imp_right fun h => ⟨h, .inl hflag⟩⟩
  | halted hflag hgroups hothers hissued =>
    obtain ⟨u, es, hr, hes⟩ := message_of_groupsPlan hgroups hissued hc
    refine ⟨u, es, hr, fun entry hentry => ?_⟩
    obtain ⟨m, hm, hurl, rfl⟩ := hes entry hentry
    exact ⟨m, hurl, rfl, .inl hm⟩
  | @redriving groups others cs ds lists stop hflag hgroups hothers hissued hredriven =>
    obtain ⟨mid, rfl, -⟩ | ⟨mid, rfl, rfl⟩ := split_append hcs
    · obtain ⟨u, es, hr, hes⟩ := message_of_groupsPlan hgroups hissued
        (List.mem_append_right _ (List.mem_cons_self ..))
      refine ⟨u, es, hr, fun entry hentry => ?_⟩
      obtain ⟨m, hm, hurl, rfl⟩ := hes entry hentry
      exact ⟨m, hurl, rfl, .inl hm⟩
    · obtain ⟨group, hgroup, es, hr, hes⟩ := hredriven.moved_of_delete hothers.nodup rfl hdelete
      refine ⟨group.1, es, hr, fun entry hentry => ?_⟩
      obtain ⟨m, hm, rfl, hmoved⟩ := hes entry hentry
      obtain ⟨hmem, hurl⟩ := hothers.of_mem hgroup hm
      have hskip (rest : List Call) : sendsFor group.1 (cs ++ rest) = sendsFor group.1 rest :=
        sendsWhile_deletes_append (isDelete_of_groupsPlan hissued)
      refine ⟨m, hurl, rfl, .inr ⟨hmem, .inr ⟨hflag, ?_⟩⟩⟩
      exact hmoved.mono (List.subset_append_right ..) (hskip _) (hskip _)

/-- What is sent on behalf of a queue are failures of it that are not retryable. -/
theorem Reconciled.of_send (h : Reconciled settings triage succeeded failed cs stop)
    (hc : c ∈ sendsFor u cs) : ∃ ms, SendsOf ms c ∧ ∀ m ∈ ms,
      m.queueUrl = .ok u ∧ m ∈ finals triage failed := by
  cases h with
  | undecided => simp [sendsFor] at hc
  | unlocated => simp [sendsFor] at hc
  | deleting hflag hgroups hothers hissued =>
    rw [sendsFor, sendsWhile_deletes (isDelete_of_groupsPlan hissued)] at hc
    simp at hc
  | halted hflag hgroups hothers hissued =>
    rw [sendsFor, sendsWhile_deletes (isDelete_of_groupsPlan hissued)] at hc
    simp at hc
  | redriving hflag hgroups hothers hissued hredriven =>
    rw [sendsFor, sendsWhile_deletes_append (isDelete_of_groupsPlan hissued)] at hc
    obtain ⟨group, hgroup, rfl, hsends⟩ := hredriven.sendsOf_of_mem hc
    exact ⟨group.2, hsends, fun m hm => (hothers.of_mem hgroup hm).symm⟩

/-- Every send of a reconciliation is on behalf of some queue. -/
theorem Reconciled.exists_sendsFor (h : Reconciled settings triage succeeded failed cs stop)
    (hc : c ∈ cs) (hsend : c.request.isSend) : ∃ u, c ∈ sendsFor u cs := by
  cases h with
  | undecided => simp at hc
  | unlocated => simp at hc
  | deleting hflag hgroups hothers hissued =>
    exact (Request.not_isDelete_of_isSend hsend (isDelete_of_groupsPlan hissued c hc)).elim
  | halted hflag hgroups hothers hissued =>
    exact (Request.not_isDelete_of_isSend hsend (isDelete_of_groupsPlan hissued c hc)).elim
  | redriving hflag hgroups hothers hissued hredriven =>
    rcases List.mem_append.1 hc with hc | hc
    · exact (Request.not_isDelete_of_isSend hsend (isDelete_of_groupsPlan hissued c hc)).elim
    · obtain ⟨group, -, hin⟩ := hredriven.mem_sendsWhile hc hsend
      refine ⟨group.1, ?_⟩
      rw [sendsFor, sendsWhile_deletes_append (isDelete_of_groupsPlan hissued)]
      exact hin _

end Reconciliation

/-! ## Identifiers of entries -/

theorem entryId_deleteEntry : entryId m.deleteEntry = .ok (.text m.id) := rfl

theorem entryId_of_sendEntry {entry : Value} (h : m.sendEntry = .ok entry) :
    entryId entry = .ok (.text m.id) := by
  unfold Message.sendEntry at h
  cases hattributes : Message.sendAttributes m.messageAttributes with
  | error e => rw [hattributes] at h; cases h
  | ok attributes =>
    rw [hattributes] at h
    obtain rfl := Except.ok.inj h
    cases attributes <;> rfl

/-- Whether the ids of the messages of each queue are distinct. -/
def DistinctIds (ms : List Message) : Prop :=
  ∀ queueUrl, ((ms.filter (Message.isFrom queueUrl)).map Message.id).Nodup

/-- With distinct ids, a message has one outcome. -/
theorem DistinctIds.outcome_unique {outcomes : List (Message × Outcome)} {n : Message}
    {o o' : Outcome} (h : DistinctIds (outcomes.map Prod.fst)) (hm : (m, o) ∈ outcomes)
    (hn : (n, o') ∈ outcomes) (hmurl : m.queueUrl = .ok u) (hnurl : n.queueUrl = .ok u)
    (hid : m.id = n.id) : o = o' := by
  have hnodup := h u
  rw [List.filter_map, List.map_map] at hnodup
  have hmem {k : Message} {o : Outcome} (hk : (k, o) ∈ outcomes) (hurl : k.queueUrl = .ok u) :
      (k, o) ∈ outcomes.filter (Message.isFrom u ∘ Prod.fst) :=
    List.mem_filter.2 ⟨hk, Message.isFrom_iff.2 hurl⟩
  have heq := List.inj_on_of_nodup_map hnodup (hmem hm hmurl) (hmem hn hnurl) hid
  exact (Prod.mk.inj heq).2

end Batch

/-! ## Courses of a batch -/

namespace Processor

variable {p : Processor} {ms : List Message} {handler : Handler}
  {outcomes : List (Message × Outcome)} {t : List Event} {x : Except Error (List Value)}
  {cs before all : List Call} {u : Text} {m : Message} {c : Call}

/-- How a message may be dealt with for good, so that it can be deleted. -/
inductive Settled (p : Processor) (outcomes : List (Message × Outcome)) (before all : List Call)
    (queueUrl : Text) (m : Message) : Prop
  | succeeded {v : Value} (h : (m, .success v) ∈ outcomes)
  | discarded {e : Error} (h : (m, .failure e) ∈ outcomes)
      (hfinal : p.triage.isNonRetryable e = .ok true)
      (hflag : p.settings.deleteNonRetryable.truthy = true)
  | moved {e : Error} (h : (m, .failure e) ∈ outcomes)
      (hfinal : p.triage.isNonRetryable e = .ok true)
      (hflag : p.settings.deleteNonRetryable.truthy = false)
      (hmoved : Batch.Moved before all queueUrl m)

/-- What is settled is a message with an outcome. -/
theorem Settled.mem (h : p.Settled outcomes before all u m) : m ∈ outcomes.map Prod.fst := by
  cases h with
  | succeeded hmem => exact List.mem_map_of_mem hmem
  | discarded hmem => exact List.mem_map_of_mem hmem
  | moved hmem => exact List.mem_map_of_mem hmem

/-- A batch with failures is concluded by the calls of its reconciliation: it comes to its ending after
one that ends well, or ends in the error of its reconciliation. -/
theorem exists_reconciliation (h : (p.conclude outcomes).Ends t x)
    (hfailures : Batch.failures outcomes ≠ []) :
    ∃ u stop, (p.reconciliation outcomes).Ends u (Batch.endOf stop ()) ∧ calls u = calls t ∧
      x = match stop with
        | none => p.ending outcomes
        | some e => .error e := by
  cases concludes_of_ends h with
  | acknowledged hnone => exact absurd hnone hfailures
  | @broken s e _ hbroken => exact ⟨s, some e, hbroken, rfl, rfl⟩
  | @suppressed s _ _ hlines hsuppress hdone =>
    refine ⟨s, none, hdone, ?_, by simp only [ending_of_lines hlines, due, if_pos hsuppress]⟩
    rw [countLine, calls_log, calls_append, suppressedLine, calls_log, calls_nil, List.append_nil]
  | @reported s _ _ hlines hsuppress hdone =>
    exact ⟨s, none, hdone, rfl, by simp [ending_of_lines hlines, due, hsuppress]⟩
  | @unreported s e _ hlines hdone =>
    exact ⟨s, none, hdone, rfl, (ending_of_lines_eq_error hlines).symm⟩

/-- A batch with failures comes to its ending, after a reconciliation that ends well, or ends in the
error of its reconciliation. -/
theorem reconciled_of_failures (h : (p.conclude outcomes).Ends t x)
    (hfailures : Batch.failures outcomes ≠ []) :
    ∃ stop, Batch.Reconciled p.settings p.triage ((Batch.successes outcomes).map Prod.fst)
      (Batch.failures outcomes) (calls t) stop ∧
      x = match stop with
        | none => p.ending outcomes
        | some e => .error e := by
  obtain ⟨u, stop, hends, hcalls, rfl⟩ := exists_reconciliation h hfailures
  obtain ⟨stop', hreconciled, heq⟩ := Batch.reconciled_of_ends hends
  rw [← hcalls]
  cases stop <;> cases stop' <;> cases heq <;> exact ⟨_, hreconciled, rfl⟩

/-- The calls of a conclusion are those of a reconciliation, if there are any, and an error that
cut it short is what the conclusion ends in. -/
theorem reconciled_of_conclude_stop (hconclude : (p.conclude outcomes).Ends t x) :
    calls t = [] ∨ ∃ stop, Batch.Reconciled p.settings p.triage
      ((Batch.successes outcomes).map Prod.fst) (Batch.failures outcomes) (calls t) stop ∧
      ∀ e, stop = some e → x = .error e := by
  by_cases hfailures : Batch.failures outcomes = []
  · exact .inl (calls_of_conclude hconclude hfailures)
  · obtain ⟨stop, hreconciled, rfl⟩ := reconciled_of_failures hconclude hfailures
    exact .inr ⟨stop, hreconciled, by rintro e rfl; rfl⟩

/-- The calls of a conclusion are those of a reconciliation, if there are any. -/
theorem reconciled_of_conclude (hconclude : (p.conclude outcomes).Ends t x) :
    calls t = [] ∨ ∃ stop, Batch.Reconciled p.settings p.triage
      ((Batch.successes outcomes).map Prod.fst) (Batch.failures outcomes) (calls t) stop :=
  (reconciled_of_conclude_stop hconclude).imp_right fun ⟨stop, hreconciled, _⟩ =>
    ⟨stop, hreconciled⟩

/-- If a course of a batch has calls of its own, all messages had their outcomes before them, and
they are those of a reconciliation. -/
theorem Stages.reconciled {handled rest : List Event}
    (h : p.Stages ms handler handled outcomes rest x) (hcalls : calls rest ≠ []) :
    outcomes.map Prod.fst = ms ∧ ∃ stop, Batch.Reconciled p.settings p.triage
      ((Batch.successes outcomes).map Prod.fst) (Batch.failures outcomes) (calls rest) stop ∧
      ∀ e, stop = some e → x = .error e := by
  cases h with
  | aborted => exact absurd rfl hcalls
  | concluded hhandling hconclude =>
    exact ⟨messages_of_handling hhandling,
      (reconciled_of_conclude_stop hconclude).resolve_left hcalls⟩

/-- Messages that succeeded or failed for good, by their outcomes. -/
theorem settled_of_reconciled (h : m ∈ (Batch.successes outcomes).map Prod.fst ∨
    m ∈ Batch.finals p.triage (Batch.failures outcomes) ∧
      (p.settings.deleteNonRetryable.truthy = true ∨
        p.settings.deleteNonRetryable.truthy = false ∧ Batch.Moved before all u m)) :
    p.Settled outcomes before all u m := by
  rcases h with hm | ⟨hm, hflag⟩
  · obtain ⟨⟨n, v⟩, hmem, rfl⟩ := List.mem_map.1 hm
    exact .succeeded (Batch.mem_successes.1 hmem)
  · obtain ⟨e, hmem, hfinal⟩ := Batch.mem_finals.1 hm
    rcases hflag with hflag | ⟨hflag, hmoved⟩
    · exact .discarded (Batch.mem_failures.1 hmem) hfinal hflag
    · exact .moved (Batch.mem_failures.1 hmem) hfinal hflag hmoved

/-- What the calls of a conclusion for a queue are about: messages of the queue that succeeded
or failed for good. -/
theorem message_of_entry (h : (p.conclude outcomes).Ends t x)
    (hc : c ∈ deletesFrom u (calls t) ++ sendsFor u (calls t)) {entry : Value}
    (hentry : entry ∈ c.request.entries) : ∃ n o, n.queueUrl = .ok u ∧ (n, o) ∈ outcomes ∧
      Batch.entryId entry = .ok (.text n.id) ∧
      ∀ e, o = .failure e → p.triage.isNonRetryable e = .ok true := by
  obtain hnil | ⟨stop, hreconciled⟩ := reconciled_of_conclude h
  · simp [hnil, sendsFor] at hc
  rcases List.mem_append.1 hc with hc | hc
  · obtain ⟨hcs, hfrom⟩ := List.mem_filter.1 hc
    obtain ⟨before, after, hsplit⟩ := List.append_of_mem hcs
    obtain ⟨v, es, hr, hes⟩ :=
      hreconciled.of_delete hsplit (Request.isDelete_of_deletesFrom hfrom)
    rw [hr] at hfrom hentry
    obtain rfl : v = u := by simpa [Request.deletesFrom] using hfrom
    obtain ⟨n, hurl, rfl, hn⟩ := hes entry hentry
    cases settled_of_reconciled hn with
    | succeeded hmem => exact ⟨n, _, hurl, hmem, Batch.entryId_deleteEntry, by simp⟩
    | discarded hmem hfinal _ =>
      exact ⟨n, _, hurl, hmem, Batch.entryId_deleteEntry, by simpa using hfinal⟩
    | moved hmem hfinal _ _ =>
      exact ⟨n, _, hurl, hmem, Batch.entryId_deleteEntry, by simpa using hfinal⟩
  · obtain ⟨ns, ⟨_, es, entries, hr, hentries, hsub⟩, hns⟩ := hreconciled.of_send hc
    rw [hr] at hentry
    have hin : .ok entry ∈ ns.map Message.sendEntry := by
      rw [mapM_eq_ok.1 hentries]
      exact List.mem_map_of_mem (hsub hentry)
    obtain ⟨n, hn, heq⟩ := List.mem_map.1 hin
    obtain ⟨hurl, hmem⟩ := hns n hn
    obtain ⟨e, hmem, hfinal⟩ := Batch.mem_finals.1 hmem
    exact ⟨n, _, hurl, Batch.mem_failures.1 hmem, Batch.entryId_of_sendEntry heq,
      by simpa using hfinal⟩

/-- Whether calls that follow the outcomes of a batch lose no message. -/
structure Lossless (p : Processor) (ms : List Message) (outcomes : List (Message × Outcome))
    (cs : List Call) : Prop where
  /-- Every delete request holds entries of messages of its queue that are settled by then. -/
  settled : ∀ before c after, cs = before ++ c :: after → c.request.isDelete →
    ∃ u es, c.request = .delete (.text u) (.list es) ∧ ∀ entry ∈ es, ∃ m ∈ ms,
      m.queueUrl = .ok u ∧ entry = m.deleteEntry ∧ p.Settled outcomes before cs u m
  /-- Every send request is on behalf of some queue. -/
  attributed : ∀ c ∈ cs, c.request.isSend → ∃ u, c ∈ sendsFor u cs
  /-- With distinct ids, no call for a queue names a failure of it that may be handled again. -/
  kept : Batch.DistinctIds ms → ∀ m e u, (m, .failure e) ∈ outcomes →
    p.triage.isNonRetryable e ≠ .ok true → m.queueUrl = .ok u →
    ∀ c ∈ deletesFrom u cs ++ sendsFor u cs, ∀ entry ∈ c.request.entries,
      Batch.entryId entry ≠ .ok (.text m.id)

/-- The calls of a conclusion lose no message. -/
theorem lossless_of_conclude (h : (p.conclude outcomes).Ends t x) :
    p.Lossless (outcomes.map Prod.fst) outcomes (calls t) where
  settled := by
    intro before c after hcs hdelete
    obtain hnil | ⟨stop, hreconciled⟩ := reconciled_of_conclude h
    · simp [hnil] at hcs
    obtain ⟨u, es, hr, hes⟩ := hreconciled.of_delete hcs hdelete
    refine ⟨u, es, hr, fun entry hentry => ?_⟩
    obtain ⟨m, hurl, heq, hm⟩ := hes entry hentry
    have hsettled := settled_of_reconciled hm
    exact ⟨m, hsettled.mem, hurl, heq, hsettled⟩
  attributed := by
    intro c hc hsend
    obtain hnil | ⟨stop, hreconciled⟩ := reconciled_of_conclude h
    · simp [hnil] at hc
    · exact hreconciled.exists_sendsFor hc hsend
  kept := by
    intro hdistinct m e u hmem hretryable hurl c hc entry hentry hid
    obtain ⟨n, o, hnurl, hn, hnid, hfinal⟩ := message_of_entry h hc hentry
    have hids : n.id = m.id := by simpa using hnid.symm.trans hid
    have ho := hdistinct.outcome_unique hn hmem hnurl hurl hids
    exact hretryable (hfinal e ho)

/-- **No message is lost.** Every course of a batch, however it ends, has a part in which the
messages are handled, and calls after it that lose none of them. -/
theorem no_message_lost (h : (p.process ms handler).Ends t x) :
    ∃ handled outcomes rest, t = handled ++ rest ∧ p.Stages ms handler handled outcomes rest x ∧
      p.Lossless ms outcomes (calls rest) := by
  obtain ⟨handled, outcomes, rest, rfl, hstages⟩ := ends_process.1 h
  refine ⟨handled, outcomes, rest, rfl, hstages, ?_⟩
  cases hstages with
  | aborted => exact ⟨by simp, by simp, by simp⟩
  | concluded hhandling hconclude =>
    rw [← messages_of_handling hhandling]
    exact lossless_of_conclude hconclude

end Processor

/-! ## A batch with a message that cannot be moved -/

namespace Sample

theorem distinctIds : Batch.DistinctIds orders := fun _ =>
  ((List.filter_sublist).map Message.id).nodup (by decide)

/-- A service whose queues have a dead-letter queue, to which the message `c` cannot be sent. -/
def service : Request → Except Error Value
  | .attributes _ _ => .ok (.object [("Attributes", .object [("RedrivePolicy",
      .text "\x7b\"deadLetterTargetArn\": \"arn:aws:sqs:eu:1:dead\"\x7d")])])
  | .send _ _ => .ok (.object [("Failed", .list [.object [("Id", .text "c")]])])
  | .delete _ _ => .ok (.object [])

/-- What is asked of the service: `a` is deleted, `b` and `c` are sent, `b` is deleted. -/
def requests : List Request :=
  let url : Value := .text "https://sqs.eu.amazonaws.com/1/orders"
  let sent (id : Text) : Value := .object [("Id", .text id), ("MessageBody", .text "[]")]
  let deleted (id : Text) : Value := .object [("Id", .text id), ("ReceiptHandle", .text id)]
  [.delete url (.list [deleted "a"]), .attributes url ["RedrivePolicy"],
    .send (.text "https://sqs.eu.amazonaws.com/1/dead") (.list [sent "b", sent "c"]),
    .delete url (.list [deleted "b"])]

end Sample

namespace Processor

/-- Such a course: the send of `c` is refused, so `a` and `b` are deleted, and `c` is not. -/
theorem no_message_lost_sample : ∃ t x,
    (Sample.processor.process Sample.orders Consumer.handler).Ends t x ∧
      (calls t).map Call.request = Sample.requests ∧
      ∃ handled outcomes rest, t = handled ++ rest ∧
        Sample.processor.Stages Sample.orders Consumer.handler handled outcomes rest x ∧
        Sample.processor.Lossless Sample.orders outcomes (calls rest) := by
  have h := Run.ends_exec (.service Sample.service)
    (Sample.processor.process Sample.orders Consumer.handler) ()
  exact ⟨_, _, h, by decide +kernel, no_message_lost h⟩

end Processor
end PartialBatch
