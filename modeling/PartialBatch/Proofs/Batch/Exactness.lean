/-
# Reconciliation is exact

A reconciliation that ends well has deleted from each queue exactly its successes and what was
released of its failures, has sent exactly those of them that are not retryable, and has called
no other queue. Nothing is left out and nothing is done twice, however the batch mixes queues and
outcomes and wherever its chunks end.

| failures of the queue that are not retryable | sent | released |
| --- | --- | --- |
| are to be deleted | none | all |
| are to be moved, and there are none | none | none |
| are to be moved, without dead-letter queue | none | none |
| are to be moved, with dead-letter queue | all | those that no answer lists as failed |

A plan that is done has made all its requests, so what it deletes from a queue can be read off it
(`entriesOf_groupsPlan`). What a block deletes and sends follows from the answers in it
(`Block.released`); blocks of other queues add nothing for a queue (`Redriven.released`).
-/

import PartialBatch.Proofs.Batch.NoLoss

namespace PartialBatch
namespace Batch

variable {size : Size} {queueUrl u : Text} {groups : QueueGroups} {ms moved : List Message}
  {cs : List Call} {c : Call} {stop : Option Error}

/-! ## What plans delete from a queue -/

theorem DeletesOf.deletesFrom_eq (h : DeletesOf queueUrl ms c) :
    c.request.deletesFrom u = decide (queueUrl = u) := by
  obtain ⟨es, hr, -⟩ := h
  simp [hr, Request.deletesFrom]

/-- Calls that delete from one queue delete from no other. -/
theorem deletesFrom_of_deletesOf (h : ∀ c ∈ cs, ∃ ms, DeletesOf queueUrl ms c) :
    deletesFrom u cs = if queueUrl = u then cs else [] := by
  have hfrom (c : Call) (hc : c ∈ cs) : c.request.deletesFrom u = decide (queueUrl = u) :=
    have ⟨_, hdeletes⟩ := h c hc
    hdeletes.deletesFrom_eq
  by_cases hu : queueUrl = u
  · rw [if_pos hu, deletesFrom, List.filter_eq_self]
    simpa [hu] using hfrom
  · rw [if_neg hu, deletesFrom, List.filter_eq_nil_iff]
    simpa [hu] using hfrom

/-- The plan for a queue deletes exactly its messages from it. -/
theorem entriesOf_deletePlan {lists : List (List Value)}
    (h : Issued QueueClient.failedEntries (deletePlan size queueUrl ms) cs lists none) :
    entriesOf cs = ms.map Message.deleteEntry := by
  unfold deletePlan at h
  split at h
  · rename_i hempty
    cases h
    rw [List.isEmpty_iff.1 hempty]
    rfl
  · exact entriesOf_of_chunkPlan h fun _ => rfl

/-- **The plan for groups deletes from a queue exactly what they have of it**, in order. -/
theorem entriesOf_groupsPlan {lists : List (List Value)}
    (h : Issued QueueClient.failedEntries (groupsPlan size groups) cs lists none) :
    entriesOf (deletesFrom u cs) =
      (groups.flatMap fun group => if group.1 = u then group.2 else []).map
        Message.deleteEntry := by
  induction groups generalizing cs lists with
  | nil =>
    cases h
    rfl
  | cons group rest ih =>
    obtain ⟨cs₁, lists₁, cs₂, lists₂, rfl, h₁, h₂⟩ := Issued.of_append h
    rw [deletesFrom_append, entriesOf_append, ih h₂, List.flatMap_cons, List.map_append,
      deletesFrom_of_deletesOf fun c hc => ⟨_, deletesOf_of_deletePlan h₁ hc⟩]
    congr 1
    by_cases hu : group.1 = u
    · rw [if_pos hu, if_pos hu, entriesOf_deletePlan h₁]
    · rw [if_neg hu, if_neg hu]
      rfl

/-! ## What is released -/

/-- What is released of the failures of a queue that are not retryable, given the answer that
tells the redrive policy of the queue, and the sends on its behalf. -/
inductive Released (queueUrl : Text) (ms : List Message) (answer : Value) :
    List Call → List Message → Prop
  /-- Without a dead-letter queue nothing is sent, and nothing is released. -/
  | absent (hpolicy : QueueClient.policyIn queueUrl answer = .ok none) :
      Released queueUrl ms answer [] []
  /-- With a dead-letter queue everything is sent there, and is released unless it is listed. -/
  | present {policy : RedrivePolicy} {deadLetterUrl : Text} {sends : List Call}
      (hpolicy : QueueClient.policyIn queueUrl answer = .ok (some policy))
      (hurl : policy.deadLetterUrl = .ok deadLetterUrl)
      (hto : ∀ c ∈ sends, ∃ es, c.request = .send (.text deadLetterUrl) (.list es))
      (hentries : Message.sendEntries ms = .ok (entriesOf sends)) :
      Released queueUrl ms answer sends (unlisted sends ms)

/-- A block that ends well sends all messages of its queue, and deletes what is released. -/
theorem Block.released (h : Block size queueUrl ms cs none) :
    ∃ answer sends deletes released,
      cs = ⟨QueueClient.policyRequest queueUrl, .ok answer⟩ :: (sends ++ deletes) ∧
        Released queueUrl ms answer sends released ∧ (∀ c ∈ sends, c.request.isSend) ∧
        (∀ c ∈ deletes, ∃ ns, DeletesOf queueUrl ns c) ∧
        entriesOf deletes = released.map Message.deleteEntry := by
  cases h with
  | @moved moved cs deletes lists _ hmove hdelete =>
    have hdeletes (c : Call) (hc : c ∈ deletes) : ∃ ns, DeletesOf queueUrl ns c :=
      ⟨_, deletesOf_of_deletePlan hdelete hc⟩
    have hentries := entriesOf_deletePlan hdelete
    generalize hx : (Except.ok moved : Except Error (List Message)) = x at hmove
    cases hmove with
    | unread | unusable | unsendable | unsent => cases hx
    | @absent answer hpolicy =>
      obtain rfl := Except.ok.inj hx
      exact ⟨answer, [], deletes, [], rfl, .absent hpolicy, by simp, hdeletes, hentries⟩
    | @sent answer policy deadLetterUrl entries sends idss hpolicy hurl hsend hissued =>
      obtain rfl := Except.ok.inj hx
      have hto (c : Call) (hc : c ∈ sends) :
          ∃ es, c.request = .send (.text deadLetterUrl) (.list es) :=
        have ⟨es, hr, _⟩ := exists_of_mem_chunkPlan (hissued.request_mem hc)
        ⟨es, hr⟩
      have hall : entriesOf sends = entries := entriesOf_of_chunkPlan hissued fun _ => rfl
      exact ⟨answer, sends, deletes, _, rfl, .present hpolicy hurl hto (hall ▸ hsend),
        isSend_of_to hto, hdeletes, hentries⟩

/-! ## Blocks of several queues -/

/-- Only readings of a redrive policy are found as such. -/
theorem policyReads_eq_nil (h : ∀ c ∈ cs, c.request.isSend ∨ c.request.isDelete) :
    policyReads u cs = [] := by
  refine List.filter_eq_nil_iff.2 fun c hc heq => ?_
  have hr : c.request = QueueClient.policyRequest u := of_decide_eq_true heq
  have hkind := h c hc
  rw [hr] at hkind
  exact hkind.elim id id

/-- In the calls of a block, its own reading is found for its queue. -/
theorem policyReads_block {answer : Except Error Value} {sends deletes : List Call}
    (hsends : ∀ c ∈ sends, c.request.isSend) (hdeletes : ∀ c ∈ deletes, c.request.isDelete) :
    policyReads u (⟨QueueClient.policyRequest queueUrl, answer⟩ :: (sends ++ deletes)) =
      if queueUrl = u then [⟨QueueClient.policyRequest queueUrl, answer⟩] else [] := by
  have hrest : policyReads u (sends ++ deletes) = [] := policyReads_eq_nil fun c hc =>
    (List.mem_append.1 hc).imp (hsends c) (hdeletes c)
  unfold policyReads at hrest ⊢
  rw [List.filter_cons, hrest]
  simp [QueueClient.policyRequest]

/-- In the calls of a block, its deletes are found for its queue. -/
theorem deletesFrom_block {answer : Except Error Value} {sends deletes : List Call}
    (hsends : ∀ c ∈ sends, c.request.isSend)
    (hdeletes : ∀ c ∈ deletes, ∃ ns, DeletesOf queueUrl ns c) :
    deletesFrom u (⟨QueueClient.policyRequest queueUrl, answer⟩ :: (sends ++ deletes)) =
      if queueUrl = u then deletes else [] := by
  have hnone : deletesFrom u sends = [] := List.filter_eq_nil_iff.2 fun c hc hfrom =>
    Request.not_isDelete_of_isSend (hsends c hc) (Request.isDelete_of_deletesFrom hfrom)
  change deletesFrom u (sends ++ deletes) = _
  rw [deletesFrom_append, hnone, List.nil_append, deletesFrom_of_deletesOf hdeletes]

/-- A block reads nothing about another queue, and deletes nothing from it. -/
theorem Block.untouched (h : Block size queueUrl ms cs stop) (hne : queueUrl ≠ u) :
    policyReads u cs = [] ∧ deletesFrom u cs = [] := by
  obtain ⟨answer, sends, deletes, rfl, hsends, hdeletes⟩ := h.exists_eq_append
  have hsend (c : Call) (hc : c ∈ sends) := (hsends c hc).isSend
  rw [policyReads_block hsend (isDelete_of_deletesOf hdeletes), deletesFrom_block hsend hdeletes,
    if_neg hne, if_neg hne]
  exact ⟨rfl, rfl⟩

/-- Nothing is read about a queue without messages to move, and nothing is deleted from it. -/
theorem Redriven.untouched (h : Redriven size groups cs stop) (hu : u ∉ groups.map Prod.fst) :
    policyReads u cs = [] ∧ deletesFrom u cs = [] := by
  induction h with
  | done => exact ⟨rfl, rfl⟩
  | halted h => exact h.untouched fun heq => hu (by simp [heq])
  | next h rest ih =>
    rw [List.map_cons, List.mem_cons, not_or] at hu
    obtain ⟨hreads, hdeletes⟩ := h.untouched (Ne.symm hu.1)
    obtain ⟨hreads', hdeletes'⟩ := ih hu.2
    rw [policyReads_append, deletesFrom_append, hreads, hdeletes, hreads', hdeletes']
    exact ⟨rfl, rfl⟩

/-- **Blocks that end well deal with the messages of each queue**: its redrive policy is read
once, all is sent if that is present, and what is released is deleted. -/
theorem Redriven.released (h : Redriven size groups cs none) (hnodup : (groups.map Prod.fst).Nodup)
    {group : Text × List Message} (hgroup : group ∈ groups) :
    ∃ answer released,
      policyReads group.1 cs = [⟨QueueClient.policyRequest group.1, .ok answer⟩] ∧
        Released group.1 group.2 answer (sendsFor group.1 cs) released ∧
        entriesOf (deletesFrom group.1 cs) = released.map Message.deleteEntry := by
  generalize hs : (none : Option Error) = stop at h
  induction h with
  | done => simp at hgroup
  | halted => cases hs
  | @next queueUrl ms groups cs ds stop hblock hrest ih =>
    rw [List.map_cons, List.nodup_cons] at hnodup
    obtain ⟨answer, sends, deletes, released, rfl, hreleased, hsends, hdeletes, hentries⟩ :=
      hblock.released
    have hdelete := isDelete_of_deletesOf hdeletes
    rw [policyReads_append, deletesFrom_append, policyReads_block hsends hdelete,
      deletesFrom_block hsends hdeletes, sendsFor, sendsWhile_block hsends hdelete]
    rcases List.mem_cons.1 hgroup with rfl | hgroup
    · -- the block is of this queue, and later ones are not
      obtain ⟨hreads, hdeletesFrom⟩ := hrest.untouched hnodup.1
      refine ⟨answer, released, ?_, ?_, ?_⟩
      · rw [if_pos rfl, hreads, List.append_nil]
      · rwa [if_pos rfl, hrest.sendsWhile_eq_nil hnodup.1, List.append_nil]
      · rwa [if_pos rfl, hdeletesFrom, List.append_nil]
    · have hmem : group.1 ∈ groups.map Prod.fst := List.mem_map_of_mem hgroup
      have hne : queueUrl ≠ group.1 := fun heq => hnodup.1 (heq ▸ hmem)
      rw [if_neg hne, if_neg hne, if_neg hne, decide_eq_false hne]
      exact ih hnodup.2 hgroup hs

/-! ## The whole reconciliation -/

/-- How the failures of a queue that are not retryable are dealt with, and which of them are
released. -/
inductive Discharged (settings : Settings) (queueUrl : Text) (ms : List Message)
    (cs : List Call) : List Message → Prop
  /-- All of them are released, and nothing is sent. -/
  | discarded (hflag : settings.deleteNonRetryable.truthy = true)
      (hreads : policyReads queueUrl cs = []) (hsends : sendsFor queueUrl cs = []) :
      Discharged settings queueUrl ms cs ms
  /-- There are none. -/
  | idle (hflag : settings.deleteNonRetryable.truthy = false) (hms : ms = [])
      (hreads : policyReads queueUrl cs = []) (hsends : sendsFor queueUrl cs = []) :
      Discharged settings queueUrl ms cs []
  /-- They are moved as the redrive policy of their queue says, which is read once. -/
  | redriven {answer : Value} {released : List Message}
      (hflag : settings.deleteNonRetryable.truthy = false) (hms : ms ≠ [])
      (hreads : policyReads queueUrl cs = [⟨QueueClient.policyRequest queueUrl, .ok answer⟩])
      (h : Released queueUrl ms answer (sendsFor queueUrl cs) released) :
      Discharged settings queueUrl ms cs released

/-- Whether calls reconcile the queues of messages exactly. -/
structure Exact (settings : Settings) (succeeded final : List Message) (cs : List Call) :
    Prop where
  /-- What is deleted from a queue are its successes, and then what is released. -/
  deleted : ∀ u, ∃ released,
    entriesOf (deletesFrom u cs) =
      (succeeded.filter (Message.isFrom u) ++ released).map Message.deleteEntry ∧
      Discharged settings u (final.filter (Message.isFrom u)) cs released
  /-- Every call names the queue of a message, or the dead-letter queue for one. -/
  named : ∀ c ∈ cs, ∃ u, (∃ m ∈ succeeded ++ final, m.queueUrl = .ok u) ∧
    (¬c.request.isSend ∧ c.request.queueUrl = .text u ∨
      c ∈ sendsFor u cs ∧ ∃ answer policy deadLetterUrl,
        policyReads u cs = [⟨QueueClient.policyRequest u, .ok answer⟩] ∧
        QueueClient.policyIn u answer = .ok (some policy) ∧
        policy.deadLetterUrl = .ok deadLetterUrl ∧ c.request.queueUrl = .text deadLetterUrl)

/-- A call in a block is a send, or it names the queue of the block. -/
theorem Block.isSend_or (h : Block size queueUrl ms cs stop) (hc : c ∈ cs) :
    c.request.isSend ∨ ¬c.request.isSend ∧ c.request.queueUrl = .text queueUrl := by
  obtain ⟨answer, sends, deletes, rfl, hsends, hdeletes⟩ := h.exists_eq_append
  rcases List.mem_cons.1 hc with rfl | hc
  · exact .inr ⟨id, rfl⟩
  rcases List.mem_append.1 hc with hc | hc
  · exact .inl (hsends c hc).isSend
  · obtain ⟨ns, es, hr, -⟩ := hdeletes c hc
    rw [hr]
    exact .inr ⟨id, rfl⟩

/-- A call in blocks is a send, or it names the queue of its block. -/
theorem Redriven.isSend_or (h : Redriven size groups cs stop) (hc : c ∈ cs) :
    c.request.isSend ∨
      ∃ group ∈ groups, ¬c.request.isSend ∧ c.request.queueUrl = .text group.1 := by
  induction h with
  | done => simp at hc
  | halted h => exact (h.isSend_or hc).imp_right fun hurl => ⟨_, List.mem_cons_self .., hurl⟩
  | next h rest ih =>
    rcases List.mem_append.1 hc with hc | hc
    · exact (h.isSend_or hc).imp_right fun hurl => ⟨_, List.mem_cons_self .., hurl⟩
    · refine (ih hc).imp_right fun ⟨group, hgroup, hurl⟩ => ?_
      exact ⟨group, List.mem_cons_of_mem _ hgroup, hurl⟩

section Reconciliation

variable {settings : Settings} {triage : Triage} {succeeded : List Message}
  {failed : List (Message × Error)}

/-- Deleting all failures with the successes is exact. -/
theorem exact_of_deleting {others : QueueGroups} {lists : List (List Value)} {final : List Message}
    (hflag : settings.deleteNonRetryable.truthy = true) (hgroups : groups.Sorts succeeded)
    (hothers : others.Sorts final)
    (hissued : Issued QueueClient.failedEntries (groupsPlan settings.maxBatchSize
      ((groups.map fun g => (g.1, g.2 ++ others.get g.1)) ++ others.without groups)) cs
      lists none) : Exact settings succeeded final cs where
  deleted := by
    intro u
    have hdelete := isDelete_of_groupsPlan hissued
    refine ⟨final.filter (Message.isFrom u), ?_, .discarded hflag ?_ (sendsWhile_deletes hdelete)⟩
    · rw [entriesOf_groupsPlan hissued, QueueGroups.flatMap_joined hgroups.nodup hothers.nodup,
        hgroups.get_eq, hothers.get_eq]
    · exact policyReads_eq_nil fun c hc => .inr (hdelete c hc)
  named := by
    intro c hc
    obtain ⟨group, hgroup, es, hr, -⟩ := deletesOf_of_groupsPlan hissued hc
    have hmessage : ∃ m ∈ succeeded ++ final, m.queueUrl = .ok group.1 := by
      rcases List.mem_append.1 hgroup with hgroup | hgroup
      · obtain ⟨g, hg, rfl⟩ := List.mem_map.1 hgroup
        obtain ⟨m, hm, hurl⟩ := hgroups.exists_mem hg
        exact ⟨m, List.mem_append_left _ hm, hurl⟩
      · obtain ⟨m, hm, hurl⟩ := hothers.exists_mem (List.mem_filter.1 hgroup).1
        exact ⟨m, List.mem_append_right _ hm, hurl⟩
    refine ⟨group.1, hmessage, .inl ?_⟩
    rw [hr]
    exact ⟨id, rfl⟩

/-- How failures are dealt with shows in the readings of a policy and the sends only. -/
theorem Discharged.congr {ds : List Call} (h : Discharged settings u ms cs moved)
    (hreads : policyReads u ds = policyReads u cs) (hsends : sendsFor u ds = sendsFor u cs) :
    Discharged settings u ms ds moved := by
  cases h with
  | discarded hflag hr hs => exact .discarded hflag (hreads.trans hr) (hsends.trans hs)
  | idle hflag hms hr hs => exact .idle hflag hms (hreads.trans hr) (hsends.trans hs)
  | redriven hflag hms hr h => exact .redriven hflag hms (hreads.trans hr) (hsends.symm ▸ h)

/-- Blocks that end well deal with the messages of each of their queues, and delete what is
released. -/
theorem Redriven.dealt (h : Redriven size groups cs none) (hnodup : (groups.map Prod.fst).Nodup)
    (hflag : settings.deleteNonRetryable.truthy = false) {group : Text × List Message}
    (hgroup : group ∈ groups) (hne : group.2 ≠ []) :
    ∃ released, entriesOf (deletesFrom group.1 cs) = released.map Message.deleteEntry ∧
      Discharged settings group.1 group.2 cs released := by
  obtain ⟨answer, released, hread, hreleased, hentries⟩ := h.released hnodup hgroup
  exact ⟨released, hentries, .redriven hflag hne hread hreleased⟩

/-- Blocks that end well deal with the failures of every queue, and delete what is released. -/
theorem Redriven.discharged {final : List Message} (h : Redriven size groups cs none)
    (hgroups : groups.Sorts final) (hflag : settings.deleteNonRetryable.truthy = false) (u : Text) :
    ∃ released, entriesOf (deletesFrom u cs) = released.map Message.deleteEntry ∧
      Discharged settings u (final.filter (Message.isFrom u)) cs released := by
  by_cases hu : u ∈ groups.map Prod.fst
  · obtain ⟨group, hgroup, rfl⟩ := List.mem_map.1 hu
    rw [← hgroups.group_eq hgroup]
    exact h.dealt hgroups.nodup hflag hgroup (hgroups.ne_nil group hgroup)
  · obtain ⟨hread, hnone⟩ := h.untouched hu
    have hfinal : final.filter (Message.isFrom u) = [] := by
      rw [← hgroups.get_eq, QueueGroups.get_eq_nil hu]
    rw [hnone]
    exact ⟨[], rfl, .idle hflag hfinal hread (h.sendsWhile_eq_nil hu)⟩

/-- Every call in blocks that end well names the queue of a message, or the dead-letter queue
for one. -/
theorem Redriven.named {final : List Message} (h : Redriven size groups cs none)
    (hgroups : groups.Sorts final) (hc : c ∈ cs) :
    ∃ u, (∃ m ∈ final, m.queueUrl = .ok u) ∧
      (¬c.request.isSend ∧ c.request.queueUrl = .text u ∨
        c ∈ sendsFor u cs ∧ ∃ answer policy deadLetterUrl,
          policyReads u cs = [⟨QueueClient.policyRequest u, .ok answer⟩] ∧
          QueueClient.policyIn u answer = .ok (some policy) ∧
          policy.deadLetterUrl = .ok deadLetterUrl ∧
          c.request.queueUrl = .text deadLetterUrl) := by
  rcases h.isSend_or hc with hsend | ⟨group, hgroup, hurl⟩
  · obtain ⟨group, hgroup, hin⟩ := h.mem_sendsWhile hc hsend
    obtain ⟨answer, released, hread, hreleased, -⟩ := h.released hgroups.nodup hgroup
    have hmem : c ∈ sendsFor group.1 cs := hin false
    refine ⟨group.1, hgroups.exists_mem hgroup, .inr ⟨hmem, ?_⟩⟩
    generalize hfor : sendsFor group.1 cs = sends at hreleased hmem
    cases hreleased with
    | absent => simp at hmem
    | present hpolicy hurl hto _ =>
      obtain ⟨es, hr⟩ := hto c hmem
      exact ⟨answer, _, _, hread, hpolicy, hurl, by rw [hr]; rfl⟩
  · exact ⟨group.1, hgroups.exists_mem hgroup, .inl hurl⟩

/-- Deleting the successes and moving the failures is exact. -/
theorem exact_of_redriving {others : QueueGroups} {lists : List (List Value)}
    {final : List Message} {ds : List Call}
    (hflag : settings.deleteNonRetryable.truthy = false) (hgroups : groups.Sorts succeeded)
    (hothers : others.Sorts final)
    (hissued : Issued QueueClient.failedEntries (groupsPlan settings.maxBatchSize groups) cs
      lists none)
    (hredriven : Redriven settings.maxBatchSize others ds none) :
    Exact settings succeeded final (cs ++ ds) := by
  have hdelete := isDelete_of_groupsPlan hissued
  have hreads (u : Text) : policyReads u (cs ++ ds) = policyReads u ds := by
    rw [policyReads_append, policyReads_eq_nil fun c hc => .inr (hdelete c hc), List.nil_append]
  have hsends (u : Text) : sendsFor u (cs ++ ds) = sendsFor u ds :=
    sendsWhile_deletes_append hdelete
  constructor
  · intro u
    obtain ⟨released, hentries, hdischarged⟩ := hredriven.discharged hothers hflag u
    refine ⟨released, ?_, hdischarged.congr (hreads u) (hsends u)⟩
    rw [deletesFrom_append, entriesOf_append, entriesOf_groupsPlan hissued,
      QueueGroups.flatMap_get hgroups.nodup, hgroups.get_eq, hentries, List.map_append]
  · intro c hc
    rcases List.mem_append.1 hc with hc | hc
    · obtain ⟨group, hgroup, es, hr, -⟩ := deletesOf_of_groupsPlan hissued hc
      obtain ⟨m, hm, hurl⟩ := hgroups.exists_mem hgroup
      refine ⟨group.1, ⟨m, List.mem_append_left _ hm, hurl⟩, .inl ?_⟩
      rw [hr]
      exact ⟨id, rfl⟩
    · obtain ⟨u, ⟨m, hm, hurl⟩, hnamed⟩ := hredriven.named hothers hc
      refine ⟨u, ⟨m, List.mem_append_right _ hm, hurl⟩, ?_⟩
      rwa [hsends, hreads]

/-- **A reconciliation that ends well is exact.** -/
theorem Reconciled.exact (h : Reconciled settings triage succeeded failed cs none) :
    Exact settings succeeded (finals triage failed) cs := by
  cases h with
  | deleting hflag hgroups hothers hissued => exact exact_of_deleting hflag hgroups hothers hissued
  | redriving hflag hgroups hothers hissued hredriven =>
    exact exact_of_redriving hflag hgroups hothers hissued hredriven

end Reconciliation

end Batch

namespace Processor

variable {p : Processor} {ms : List Message} {handler : Handler}
  {outcomes : List (Message × Outcome)} {handled t : List Event}

/-- After a reconciliation that ends well a batch is concluded without further calls. -/
theorem ends_of_reconciliation (hfailures : Batch.failures outcomes ≠ [])
    (h : (p.reconciliation outcomes).Ends t (.ok ())) :
    ∃ last x, (p.conclude outcomes).Ends (countLine outcomes :: (t ++ last)) x ∧
      calls last = [] := by
  have hend : ∃ last x, (do
      let report ← Error.reporting (Batch.failures outcomes) (values outcomes)
      if p.settings.suppress.truthy then
        Run.log .debug "batch_failures_suppressed"
          [("failed_count", .int (Batch.failures outcomes).length),
            ("message_ids", .list ((Batch.failures outcomes).map fun f => .text f.1.id))]
        pure (values outcomes)
      else Run.raise report :
      Run (List Value)).Ends last x ∧ calls last = [] := by
    unfold Error.reporting
    cases Error.lines (Batch.failures outcomes) with
    | error e => exact ⟨[], .error e, ⟨rfl, rfl⟩, rfl⟩
    | ok lines =>
      cases p.settings.suppress.truthy with
      | true =>
        exact ⟨[suppressedLine outcomes], .ok (values outcomes),
          Run.ends_log_bind.2 ⟨[], rfl, rfl, rfl⟩, rfl⟩
      | false => exact ⟨[], _, Run.ends_raise.2 ⟨rfl, rfl⟩, rfl⟩
  obtain ⟨last, x, hend, hcalls⟩ := hend
  refine ⟨last, x, ?_, hcalls⟩
  unfold conclude
  refine Run.ends_log_bind.2 ⟨t ++ last, rfl, ?_⟩
  rw [if_neg fun hempty => hfailures (List.isEmpty_iff.1 hempty)]
  exact Run.ends_bind.2 (.inr ⟨t, (), last, h, hend, rfl⟩)

/-- **Reconciliation is exact.** If some message of a batch failed and the reconciliation ends
well, the batch is concluded without further calls, and the calls of the reconciliation are exact
for its successes and for its failures that are not retryable. -/
theorem reconciliation_exact (hhandling : (p.handling ms handler).Ends handled (.ok outcomes))
    (hfailures : Batch.failures outcomes ≠ [])
    (hreconciliation : (p.reconciliation outcomes).Ends t (.ok ())) :
    (∃ last x, (p.process ms handler).Ends (handled ++ countLine outcomes :: (t ++ last)) x ∧
      calls last = []) ∧
    outcomes.map Prod.fst = ms ∧
    Batch.Exact p.settings ((Batch.successes outcomes).map Prod.fst)
      (Batch.finals p.triage (Batch.failures outcomes)) (calls t) := by
  obtain ⟨last, x, hconclude, hcalls⟩ := ends_of_reconciliation hfailures hreconciliation
  refine ⟨⟨last, x, ?_, hcalls⟩, messages_of_handling hhandling, ?_⟩
  · exact ends_process.2 ⟨handled, outcomes, _, rfl, .concluded hhandling hconclude⟩
  · obtain ⟨stop, hreconciled, hstop⟩ := Batch.reconciled_of_ends hreconciliation
    cases stop with
    | none => exact hreconciled.exact
    | some e => cases hstop

/-- A batch with failures whose reconciliation ends well, although a send is refused. -/
theorem reconciliation_exact_sample : ∃ handled t,
    (Sample.processor.handling Sample.orders Consumer.handler).Ends handled
        (.ok Sample.outcomes) ∧
      Batch.failures Sample.outcomes ≠ [] ∧
      (Sample.processor.reconciliation Sample.outcomes).Ends t (.ok ()) ∧
      (calls t).map Call.request = Sample.requests ∧
      Batch.Exact Sample.processor.settings ((Batch.successes Sample.outcomes).map Prod.fst)
        (Batch.finals Sample.processor.triage (Batch.failures Sample.outcomes)) (calls t) := by
  obtain ⟨handled, hhandling⟩ := Sample.exists_handled
  have hfailures : Batch.failures Sample.outcomes ≠ [] := by
    simp [Batch.failures, Sample.outcomes]
  have hreconciliation := Run.ends_exec (.service Sample.service)
    (Sample.processor.reconciliation Sample.outcomes) ()
  have hend : ((Sample.processor.reconciliation Sample.outcomes).exec
      (.service Sample.service) ()).2.1 = .ok () := by decide +kernel
  rw [hend] at hreconciliation
  exact ⟨handled, _, hhandling, hfailures, hreconciliation, by decide +kernel,
    (reconciliation_exact hhandling hfailures hreconciliation).2.2⟩

end Processor
end PartialBatch
