/-
# Interrupted cleanups

An error on the way of messages to the dead-letter queue ends the batch, and it touches only what
comes later. For the queue `u` at which it is raised, and for the others:

| queue | successes | failures to move |
| --- | --- | --- |
| before `u`, in the order of the failures | deleted | dealt with |
| `u` | deleted | some may be sent if a send failed, none is deleted |
| after `u` | deleted | untouched |
| any other | deleted | there are none |

The reading of the redrive policy of `u` tells which block the error is in: the blocks before it
ended well (`Redriven.of_read`), and the answers that were given determine that this one did not
(`Redriven.of_moving_error`).

An error at a delete of successes comes before all readings, so no failure is touched at all
(`Reconciled.halted_of_delete_error`).
-/

import PartialBatch.Proofs.Batch.Exactness

namespace PartialBatch
namespace Batch

variable {size : Size} {queueUrl u : Text} {groups : QueueGroups} {ms : List Message}
  {m : Message} {cs sends before moving after : List Call} {c : Call} {stop : Option Error}
  {e : Error} {answer : Except Error Value}

/-! ## Where an error is raised -/

/-- Unless an answer to a send is at fault, nothing was sent when moving messages ends in an
error. -/
theorem Moving.last_send (h : Moving size queueUrl ms
    (⟨QueueClient.policyRequest queueUrl, answer⟩ :: sends) (.error e)) :
    sends = [] ∨ ∃ earlier c, sends = earlier ++ [c] ∧ c.answer >>= failedIds = .error e := by
  obtain ⟨answer', sends', heq, hrouted⟩ := h.routed
  obtain ⟨-, rfl⟩ := List.cons.inj heq
  generalize route queueUrl ms answer' = r at hrouted
  cases hrouted with
  | lost => exact .inl rfl
  | unsent hissued =>
    obtain ⟨rest, hplan⟩ | hlast := hissued.stop_cases
    · have hmap : sends.map (fun c => Except.ok c.request) =
          (sends.map Call.request).map (Except.ok : Request → Except Error Request) := by
        rw [List.map_map]
        rfl
      rw [hmap] at hplan
      exact .inl (List.map_eq_nil_iff.1 (eq_nil_of_refused hplan))
    · exact .inr hlast

/-- A block begins with the reading of its redrive policy, and holds no other reading. -/
theorem Block.of_read (h : Block size queueUrl ms cs stop)
    (hcs : cs = before ++ ⟨QueueClient.policyRequest u, answer⟩ :: after) :
    queueUrl = u ∧ before = [] := by
  obtain ⟨answer', sends, deletes, rfl, hsends, hdeletes⟩ := h.exists_eq_append
  cases before with
  | nil =>
    obtain ⟨hr, -⟩ := Call.mk.inj (List.cons.inj hcs).1
    exact ⟨by simpa [QueueClient.policyRequest] using hr, rfl⟩
  | cons first before =>
    have hmem : (⟨QueueClient.policyRequest u, answer⟩ : Call) ∈ sends ++ deletes := by
      rw [(List.cons.inj hcs).2]
      exact List.mem_append_cons_self
    rcases List.mem_append.1 hmem with hmem | hmem
    · exact (hsends _ hmem).isSend.elim
    · exact (isDelete_of_deletesOf hdeletes _ hmem).elim

/-- **A reading tells the block it is in**: the blocks before it ended well. -/
theorem Redriven.of_read (h : Redriven size groups cs stop)
    (hcs : cs = before ++ ⟨QueueClient.policyRequest u, answer⟩ :: after) :
    ∃ earlier ms later, groups = earlier ++ (u, ms) :: later ∧ Redriven size earlier before none ∧
      Redriven size ((u, ms) :: later) (⟨QueueClient.policyRequest u, answer⟩ :: after) stop := by
  induction h generalizing before with
  | done => simp at hcs
  | halted hblock =>
    obtain ⟨rfl, rfl⟩ := hblock.of_read hcs
    rw [List.nil_append] at hcs
    exact ⟨[], _, _, rfl, .done, hcs ▸ .halted hblock⟩
  | @next queueUrl ms groups cs ds stop hblock hrest ih =>
    obtain ⟨mid, hmid, rfl⟩ | ⟨mid, rfl, hds⟩ := split_append hcs
    · obtain ⟨rfl, rfl⟩ := hblock.of_read hmid
      rw [List.nil_append] at hmid
      exact ⟨[], _, _, rfl, .done, by simpa [hmid] using Redriven.next hblock hrest⟩
    · obtain ⟨earlier, ns, later, rfl, hearlier, hlater⟩ := ih hds
      exact ⟨(queueUrl, ms) :: earlier, ns, later, rfl, .next hblock hearlier, hlater⟩

/-- If moving the messages of a queue ends in an error, so does a block that begins like it, and
that is all of the block. -/
theorem Block.of_moving_error {ds rest : List Call} (h : Block size queueUrl ms ds stop)
    (hmove : Moving size queueUrl ms cs (.error e)) (heq : cs ++ after = ds ++ rest) :
    stop = some e ∧ ds = cs := by
  cases h with
  | unmoved hmove' =>
    obtain ⟨rfl, hend⟩ := hmove.unique hmove' heq
    obtain rfl := Except.error.inj hend
    exact ⟨rfl, rfl⟩
  | moved hmove' =>
    rw [List.append_assoc] at heq
    cases (hmove.unique hmove' heq).2

/-- **If moving the messages of a queue ends in an error, so do the blocks that begin like it**,
and nothing follows. -/
theorem Redriven.of_moving_error (h : Redriven size ((queueUrl, ms) :: groups) (cs ++ after) stop)
    (hmove : Moving size queueUrl ms cs (.error e)) : stop = some e ∧ after = [] := by
  generalize hall : cs ++ after = all at h
  cases h with
  | halted hblock =>
    obtain ⟨hstop, rfl⟩ := hblock.of_moving_error hmove (hall.trans (List.append_nil _).symm)
    exact ⟨hstop, by simpa using hall⟩
  | next hblock => cases (hblock.of_moving_error hmove hall).1

/-! ## What is done and what is not -/

/-- Whether calls were interrupted by an error while failures of a queue were moved, between those
of queues before and after it. -/
structure Interrupted (settings : Settings) (succeeded final : List Message)
    (earlier later : List Text) (queueUrl : Text) (e : Error) (cs : List Call) : Prop where
  /-- The successes of every queue are deleted. -/
  successes : ∀ u, (succeeded.filter (Message.isFrom u)).map Message.deleteEntry <+:
    entriesOf (deletesFrom u cs)
  /-- From the queue and from later ones nothing else is, -/
  deleted : ∀ u ∈ queueUrl :: later, entriesOf (deletesFrom u cs) =
    (succeeded.filter (Message.isFrom u)).map Message.deleteEntry
  /-- and none of their failures. -/
  kept : ∀ u ∈ queueUrl :: later, ∀ m ∈ final, m.queueUrl = .ok u →
    ∀ entry ∈ entriesOf (deletesFrom u cs), entryId entry ≠ .ok (.text m.id)
  /-- About later queues nothing is read, and nothing is sent for them. -/
  untouched : ∀ u ∈ later, policyReads u cs = [] ∧ sendsFor u cs = []
  /-- The failures of earlier queues are dealt with. -/
  dealt : ∀ u ∈ earlier, ∃ released,
    entriesOf (deletesFrom u cs) =
      (succeeded.filter (Message.isFrom u) ++ released).map Message.deleteEntry ∧
      Discharged settings u (final.filter (Message.isFrom u)) cs released
  /-- For the queue itself nothing is sent, unless it is the answer to the last send that is at
  fault. -/
  unsent : sendsFor queueUrl cs = [] ∨
    ∃ before c, sendsFor queueUrl cs = before ++ [c] ∧ c.answer >>= failedIds = .error e

/-- Whether no two messages of a queue, one from each list, have one id. -/
def Apart (ms ns : List Message) : Prop :=
  ∀ m ∈ ms, ∀ n ∈ ns, ∀ u, m.queueUrl = .ok u → n.queueUrl = .ok u → m.id ≠ n.id

section Reconciliation

variable {settings : Settings} {triage : Triage} {succeeded final : List Message}
  {failed : List (Message × Error)} {lists : List (List Value)}

/-- What calls hold about a queue that delete the successes, go through the blocks of earlier
queues and then move messages without an end. -/
theorem parts_of_moving {deletes blocks : List Call}
    {x : Except Error (List Message)} (hgroups : groups.Sorts succeeded)
    (hissued : Issued QueueClient.failedEntries (groupsPlan size groups) deletes lists none)
    (hmove : Moving size queueUrl ms (⟨QueueClient.policyRequest queueUrl, answer⟩ :: sends) x)
    (hcs : cs = deletes ++ (blocks ++ ⟨QueueClient.policyRequest queueUrl, answer⟩ :: sends))
    (u : Text) :
    entriesOf (deletesFrom u cs) = (succeeded.filter (Message.isFrom u)).map Message.deleteEntry ++
        entriesOf (deletesFrom u blocks) ∧
      policyReads u cs = policyReads u blocks ++
        (if queueUrl = u then [⟨QueueClient.policyRequest queueUrl, answer⟩] else []) ∧
      sendsFor u cs = sendsFor u blocks ++ if queueUrl = u then sends else [] := by
  have hdelete := isDelete_of_groupsPlan hissued
  have hsend : ∀ c ∈ sends, c.request.isSend := by
    obtain ⟨answer', sends', heq, hsends⟩ := hmove.exists_eq_cons
    obtain ⟨-, rfl⟩ := List.cons.inj heq
    exact fun c hc => (hsends c hc).isSend
  refine ⟨?_, ?_, ?_⟩
  · have hnone : deletesFrom u (⟨QueueClient.policyRequest queueUrl, answer⟩ :: sends) = [] :=
      List.filter_eq_nil_iff.2 fun c hc hfrom =>
        hmove.not_isDelete hc (Request.isDelete_of_deletesFrom hfrom)
    rw [hcs, deletesFrom_append, deletesFrom_append, hnone, List.append_nil, entriesOf_append,
      entriesOf_groupsPlan hissued, QueueGroups.flatMap_get hgroups.nodup, hgroups.get_eq]
  · have hone : policyReads u (⟨QueueClient.policyRequest queueUrl, answer⟩ :: (sends ++ [])) = _ :=
      policyReads_block hsend (by simp)
    rw [List.append_nil] at hone
    rw [hcs, policyReads_append, policyReads_append, hone,
      policyReads_eq_nil fun c hc => .inr (hdelete c hc), List.nil_append]
  · rw [hcs, sendsFor, sendsWhile_deletes_append hdelete, sendsWhile_append_policyRequest,
      sendsWhile_sends hsend]
    simp [sendsFor]

/-- Calls that delete the successes, deal with earlier queues and then fail to move the messages
of a queue are interrupted there. -/
theorem interrupted_of_moving_error {earlier later : QueueGroups} {deletes blocks : List Call}
    (hflag : settings.deleteNonRetryable.truthy = false) (hgroups : groups.Sorts succeeded)
    (hothers : QueueGroups.Sorts (earlier ++ (queueUrl, ms) :: later) final)
    (hissued : Issued QueueClient.failedEntries (groupsPlan size groups) deletes lists none)
    (hearlier : Redriven size earlier blocks none)
    (hmove : Moving size queueUrl ms
      (⟨QueueClient.policyRequest queueUrl, answer⟩ :: sends) (.error e))
    (hcs : cs = deletes ++ (blocks ++ ⟨QueueClient.policyRequest queueUrl, answer⟩ :: sends))
    (hapart : Apart succeeded final) :
    Interrupted settings succeeded final (earlier.map Prod.fst) (later.map Prod.fst) queueUrl e
      cs := by
  have hparts := parts_of_moving hgroups hissued hmove hcs
  -- the queue and later ones have no earlier block
  have hnodup := hothers.nodup
  rw [List.map_append, List.map_cons] at hnodup
  obtain ⟨hearlierNodup, hrestNodup, hdisjoint⟩ := List.nodup_append.1 hnodup
  have habsent (u : Text) (hu : u ∈ queueUrl :: later.map Prod.fst) : u ∉ earlier.map Prod.fst :=
    fun hmem => hdisjoint u hmem u hu rfl
  have honly (u : Text) (hu : u ∈ queueUrl :: later.map Prod.fst) :
      entriesOf (deletesFrom u cs) =
        (succeeded.filter (Message.isFrom u)).map Message.deleteEntry := by
    rw [(hparts u).1, (hearlier.untouched (habsent u hu)).2]
    exact List.append_nil _
  constructor
  case successes =>
    intro u
    rw [(hparts u).1]
    exact List.prefix_append ..
  case deleted => exact honly
  case kept =>
    intro u hu m hm hurl entry hentry
    rw [honly u hu] at hentry
    obtain ⟨n, hn, rfl⟩ := List.mem_map.1 hentry
    obtain ⟨hn, hnurl⟩ := List.mem_filter.1 hn
    rw [entryId_deleteEntry]
    have hne := hapart n hn m hm u (Message.isFrom_iff.1 hnurl) hurl
    simpa using hne
  case untouched =>
    intro u hu
    obtain ⟨-, hread, hsent⟩ := hparts u
    have hne : queueUrl ≠ u := fun heq => (List.nodup_cons.1 hrestNodup).1 (heq ▸ hu)
    have hu' := habsent u (List.mem_cons_of_mem _ hu)
    rw [hread, hsent, (hearlier.untouched hu').1, sendsFor, hearlier.sendsWhile_eq_nil hu',
      if_neg hne, if_neg hne]
    exact ⟨rfl, rfl⟩
  case dealt =>
    intro u hu
    obtain ⟨group, hgroup, rfl⟩ := List.mem_map.1 hu
    have hmem : group ∈ earlier ++ (queueUrl, ms) :: later := List.mem_append_left _ hgroup
    have hne : queueUrl ≠ group.1 := fun heq => habsent _ (List.mem_cons_self ..) (heq ▸ hu)
    obtain ⟨hdeleted, hread, hsent⟩ := hparts group.1
    rw [if_neg hne, List.append_nil] at hread hsent
    obtain ⟨released, hentries, hdischarged⟩ :=
      hearlier.dealt hearlierNodup hflag hgroup (hothers.ne_nil group hmem)
    rw [← hothers.group_eq hmem]
    refine ⟨released, ?_, hdischarged.congr hread hsent⟩
    rw [hdeleted, hentries, List.map_append]
  case unsent =>
    rw [(hparts queueUrl).2.2, sendsFor,
      hearlier.sendsWhile_eq_nil (habsent _ (List.mem_cons_self ..)), if_pos rfl, List.nil_append]
    exact hmove.last_send

/-- **If moving the messages of a queue ends in an error, that is the end of a reconciliation**,
and its calls are interrupted at that queue. -/
theorem Reconciled.interrupted (h : Reconciled settings triage succeeded failed cs stop)
    (hflag : settings.deleteNonRetryable.truthy = false)
    (hapart : Apart succeeded (finals triage failed))
    (hcs : cs = before ++ moving ++ after)
    (hmove : Moving settings.maxBatchSize queueUrl
      ((finals triage failed).filter (Message.isFrom queueUrl)) moving (.error e)) :
    stop = some e ∧ after = [] ∧ ∃ earlier later,
      queues (finals triage failed) = earlier ++ queueUrl :: later ∧
        Interrupted settings succeeded (finals triage failed) earlier later queueUrl e cs := by
  obtain ⟨answer, sends, rfl, -⟩ := hmove.exists_eq_cons
  rw [List.append_assoc, List.cons_append] at hcs
  have hread : ¬(⟨QueueClient.policyRequest queueUrl, answer⟩ : Call).request.isDelete := id
  have hin : (⟨QueueClient.policyRequest queueUrl, answer⟩ : Call) ∈ cs :=
    hcs ▸ List.mem_append_cons_self
  cases h with
  | undecided => simp at hin
  | unlocated => simp at hin
  | deleting hflag' =>
    rw [hflag] at hflag'
    cases hflag'
  | halted _ _ _ hissued => exact absurd (isDelete_of_groupsPlan hissued _ hin) hread
  | @redriving groups others deletes blocks lists stop _ hgroups hothers hissued hredriven =>
    obtain ⟨mid, hmid, -⟩ | ⟨mid, rfl, hblocks⟩ := split_append hcs
    · have hmem := hmid ▸ List.mem_append_cons_self
      exact absurd (isDelete_of_groupsPlan hissued _ hmem) hread
    · obtain ⟨earlier, ms, later, rfl, hearlier, hlater⟩ := hredriven.of_read hblocks
      have hms : ms = (finals triage failed).filter (Message.isFrom queueUrl) :=
        hothers.group_eq (List.mem_append_cons_self)
      rw [← hms] at hmove
      obtain ⟨rfl, rfl⟩ := hlater.of_moving_error hmove
      refine ⟨rfl, rfl, earlier.map Prod.fst, later.map Prod.fst, ?_, ?_⟩
      · rw [← hothers.keys_eq, List.map_append, List.map_cons]
      · rw [List.append_nil] at hblocks
        exact interrupted_of_moving_error hflag hgroups hothers hissued hearlier hmove
          (congrArg _ hblocks) hapart

/-- Blocks begin with the reading of a redrive policy. -/
theorem Redriven.exists_read (h : Redriven size groups (c :: cs) stop) :
    ∃ u answer, c = ⟨QueueClient.policyRequest u, answer⟩ := by
  generalize hall : c :: cs = all at h
  cases h with
  | done => cases hall
  | halted hblock =>
    obtain ⟨answer, sends, deletes, rfl, -, -⟩ := hblock.exists_eq_append
    exact ⟨_, answer, (List.cons.inj hall).1⟩
  | next hblock =>
    obtain ⟨answer, sends, deletes, rfl, -, -⟩ := hblock.exists_eq_append
    exact ⟨_, answer, (List.cons.inj hall).1⟩

/-- **If a delete before all readings ends in an error, that is the end of a reconciliation**, and
nothing but successes was deleted. -/
theorem Reconciled.halted_of_delete_error (h : Reconciled settings triage succeeded failed cs stop)
    (hflag : settings.deleteNonRetryable.truthy = false) (hcs : cs = before ++ c :: after)
    (hbefore : ∀ d ∈ before, d.request.isDelete) (hc : c.request.isDelete)
    (hread : c.answer >>= QueueClient.failedEntries = .error e) :
    stop = some e ∧ after = [] ∧
      ∀ d ∈ cs, ∃ u, DeletesOf u (succeeded.filter (Message.isFrom u)) d := by
  cases h with
  | undecided => simp at hcs
  | unlocated => simp at hcs
  | deleting hflag' =>
    rw [hflag] at hflag'
    cases hflag'
  | halted _ hgroups _ hissued =>
    have hdeletes (d : Call) (hd : d ∈ cs) :
        ∃ u, DeletesOf u (succeeded.filter (Message.isFrom u)) d := by
      obtain ⟨group, hgroup, hof⟩ := deletesOf_of_groupsPlan hissued hd
      rw [hgroups.group_eq hgroup] at hof
      exact ⟨group.1, hof⟩
    rw [hcs] at hissued
    obtain ⟨hstop, hafter⟩ := hissued.last_of_error hread
    exact ⟨hstop, hafter, hdeletes⟩
  | @redriving groups others deletes blocks lists stop _ _ _ hissued hredriven =>
    exfalso
    obtain ⟨mid, hmid, -⟩ | ⟨mid, rfl, hblocks⟩ := split_append hcs
    · have hmem : c ∈ deletes := hmid ▸ List.mem_append_cons_self
      obtain ⟨answer, entries, hanswer, hentries, -⟩ := hissued.exists_answer hmem
      rw [hanswer] at hread
      cases hentries.symm.trans hread
    · -- the first of the blocks' calls is a reading, and comes before the delete or is it
      cases mid with
      | nil =>
        rw [hblocks] at hredriven
        obtain ⟨u, answer, rfl⟩ := hredriven.exists_read
        exact hc
      | cons d mid =>
        rw [hblocks] at hredriven
        obtain ⟨u, answer, rfl⟩ := hredriven.exists_read
        exact hbefore _ (List.mem_append_cons_self)

end Reconciliation

/-- With distinct ids, what succeeded and what failed for good have different ones. -/
theorem DistinctIds.apart {triage : Triage} {outcomes : List (Message × Outcome)}
    (h : DistinctIds (outcomes.map Prod.fst)) :
    Apart ((successes outcomes).map Prod.fst) (finals triage (failures outcomes)) := by
  intro m hm n hn u hmurl hnurl hid
  obtain ⟨⟨m, v⟩, hmem, rfl⟩ := List.mem_map.1 hm
  obtain ⟨f, hfailed, -⟩ := mem_finals.1 hn
  cases h.outcome_unique (mem_successes.1 hmem) (mem_failures.1 hfailed) hmurl hnurl hid

end Batch

/-! ## Courses of a batch -/

namespace Processor

variable {p : Processor} {ms : List Message} {handler : Handler}
  {outcomes : List (Message × Outcome)} {handled rest : List Event}
  {x : Except Error (List Value)}

/-- Whether errors in what follows the outcomes of a batch touch only what comes later. -/
structure Contained (p : Processor) (outcomes : List (Message × Outcome)) (rest : List Event)
    (x : Except Error (List Value)) : Prop where
  /-- If the failures of a queue are moved, and that ends in an error, then so does the batch, with
  no further call, and it is interrupted there. -/
  moving : ∀ before s after queueUrl e, calls rest = before ++ calls s ++ after →
    (Batch.moveMessages p.settings.maxBatchSize queueUrl
      ((Batch.finals p.triage (Batch.failures outcomes)).filter
        (Message.isFrom queueUrl))).Ends s (.error e) →
    x = .error e ∧ after = [] ∧ ∃ earlier later,
      queues (Batch.finals p.triage (Batch.failures outcomes)) = earlier ++ queueUrl :: later ∧
        Batch.Interrupted p.settings ((Batch.successes outcomes).map Prod.fst)
          (Batch.finals p.triage (Batch.failures outcomes)) earlier later queueUrl e (calls rest)
  /-- If a delete ends in an error, and there were only deletes before it, then so does the batch,
  with no further call, and only successes are deleted. -/
  deleting : ∀ before c after e, calls rest = before ++ c :: after →
    (∀ d ∈ before, d.request.isDelete) → c.request.isDelete →
    c.answer >>= QueueClient.failedEntries = .error e →
    x = .error e ∧ after = [] ∧ ∀ d ∈ calls rest, ∃ u, Batch.DeletesOf u
      (((Batch.successes outcomes).map Prod.fst).filter (Message.isFrom u)) d

/-- **An error on the way to the dead-letter queue touches only what comes later**, in every course
of a batch whose failures are to be moved, if its ids are distinct. -/
theorem redrive_error_contained (hstages : p.Stages ms handler handled outcomes rest x)
    (hflag : p.settings.deleteNonRetryable.truthy = false) (hdistinct : Batch.DistinctIds ms) :
    (p.process ms handler).Ends (handled ++ rest) x ∧ p.Contained outcomes rest x := by
  refine ⟨ends_process.2 ⟨handled, outcomes, rest, rfl, hstages⟩, ?_, ?_⟩
  · intro before s after queueUrl e hcalls hmove
    have hmoving := Batch.moving_of_moveMessages hmove
    obtain ⟨answer, sends, heq, -⟩ := hmoving.exists_eq_cons
    have hne : calls rest ≠ [] := by simp [hcalls, heq]
    obtain ⟨hmessages, stop, hreconciled, hstop⟩ := hstages.reconciled hne
    rw [← hmessages] at hdistinct
    obtain ⟨rfl, hafter, hinterrupted⟩ :=
      hreconciled.interrupted hflag hdistinct.apart hcalls hmoving
    exact ⟨hstop e rfl, hafter, hinterrupted⟩
  · intro before c after e hcalls hbefore hc hread
    have hne : calls rest ≠ [] := by simp [hcalls]
    obtain ⟨-, stop, hreconciled, hstop⟩ := hstages.reconciled hne
    obtain ⟨rfl, hafter, hdeletes⟩ :=
      hreconciled.halted_of_delete_error hflag hcalls hbefore hc hread
    exact ⟨hstop e rfl, hafter, hdeletes⟩

end Processor

instance : DecidableEq Call := fun c d =>
  decidable_of_iff (c.request = d.request ∧ c.answer = d.answer) (by cases c; cases d; simp)

namespace Sample

/-- The URL of the queue of `orders`. -/
def ordersUrl : Text := "https://sqs.eu.amazonaws.com/1/orders"

def billsUrl : Text := "https://sqs.eu.amazonaws.com/1/bills"

def notesUrl : Text := "https://sqs.eu.amazonaws.com/1/notes"

/-- A message of the queue `bills`. -/
def bill (id body : Text) : Message := { order id body with source := "arn:aws:sqs:eu:1:bills" }

/-- A message of the queue `notes`. -/
def note (id body : Text) : Message := { order id body with source := "arn:aws:sqs:eu:1:notes" }

/-- What becomes of a message whose body is a record or a list. -/
def rule (m : Message) : Outcome :=
  if m.body = "[]" then .failure (malformed m.id)
  else .success (.object [("messageId", .text m.id), ("status", .text "success")])

/-- Messages of three queues, each with a record and a body that is none. -/
def post : List Message :=
  [bill "d" "[]", order "a" "\x7b\x7d", order "b" "[]", note "e" "[]", order "c" "[]",
    bill "f" "\x7b\x7d", note "g" "\x7b\x7d"]

/-- Their outcomes. -/
def postOutcomes : List (Message × Outcome) := post.map fun m => (m, rule m)

/-- What a service answers that cannot keep up. -/
def throttled : Error := .saying .clientError "throttled"

/-- A service like `service` that cannot keep up once `c` is sent. -/
def busyService : Request → Except Error Value
  | .send url (.list entries) =>
    if entries.any (Batch.names · "c") then .error throttled else service (.send url (.list entries))
  | r => service r

/-- The failures of `post` that are to be moved. -/
def final : List Message := Batch.finals processor.triage (Batch.failures postOutcomes)

/-- What moves those of `orders`. -/
def moving : Run (List Message) :=
  Batch.moveMessages processor.settings.maxBatchSize ordersUrl
    (final.filter (Message.isFrom ordersUrl))

/-- The events when outcomes are concluded in a service. -/
def concluding (outcomes : List (Message × Outcome)) (serve : Request → Except Error Value) :
    List Event :=
  ((processor.conclude outcomes).exec (.service serve) ()).1

/-- What is asked until the service cannot keep up: the successes of all queues are deleted, `d` is
moved, and `b` and `c` are sent. -/
def postRequests : List Request :=
  let dead : Value := .text "https://sqs.eu.amazonaws.com/1/dead"
  let sent (id : Text) : Value := .object [("Id", .text id), ("MessageBody", .text "[]")]
  let deleted (id : Text) : Value := .object [("Id", .text id), ("ReceiptHandle", .text id)]
  [.delete (.text ordersUrl) (.list [deleted "a"]), .delete (.text billsUrl) (.list [deleted "f"]),
    .delete (.text notesUrl) (.list [deleted "g"]),
    .attributes (.text billsUrl) ["RedrivePolicy"], .send dead (.list [sent "d"]),
    .delete (.text billsUrl) (.list [deleted "d"]),
    .attributes (.text ordersUrl) ["RedrivePolicy"], .send dead (.list [sent "b", sent "c"])]

end Sample

namespace Processor

/-- Such a course: the send of `b` and `c` fails, and that is the end. By then the failure of `bills`
is moved, and nothing was asked about that of `notes`. -/
theorem redrive_error_contained_sample : ∃ handled,
    Sample.processor.Stages Sample.post Consumer.handler handled Sample.postOutcomes
        (Sample.concluding Sample.postOutcomes Sample.busyService) (.error Sample.throttled) ∧
      Sample.processor.settings.deleteNonRetryable.truthy = false ∧
      Batch.DistinctIds Sample.post ∧
      (calls (Sample.concluding Sample.postOutcomes Sample.busyService)).map Call.request =
        Sample.postRequests ∧
      (∃ s, calls (Sample.concluding Sample.postOutcomes Sample.busyService) =
          (calls (Sample.concluding Sample.postOutcomes Sample.busyService)).take 6 ++ calls s ∧
        Sample.moving.Ends s (.error Sample.throttled)) ∧
      queues Sample.final = [Sample.billsUrl, Sample.ordersUrl, Sample.notesUrl] ∧
      Batch.Interrupted Sample.processor.settings
        ((Batch.successes Sample.postOutcomes).map Prod.fst) Sample.final [Sample.billsUrl]
        [Sample.notesUrl] Sample.ordersUrl Sample.throttled
        (calls (Sample.concluding Sample.postOutcomes Sample.busyService)) := by
  have hhandling := Run.ends_exec (.service Sample.service)
    (Sample.processor.handling Sample.post Consumer.handler) ()
  have houtcomes : ((Sample.processor.handling Sample.post Consumer.handler).exec
      (.service Sample.service) ()).2.1 = .ok Sample.postOutcomes := by decide +kernel
  have hconclude := Run.ends_exec (.service Sample.busyService)
    (Sample.processor.conclude Sample.postOutcomes) ()
  have hend : ((Sample.processor.conclude Sample.postOutcomes).exec
      (.service Sample.busyService) ()).2.1 = .error Sample.throttled := by decide +kernel
  have hmove := Run.ends_exec (.service Sample.busyService) Sample.moving ()
  have hraised : (Sample.moving.exec (.service Sample.busyService) ()).2.1 =
      .error Sample.throttled := by decide +kernel
  rw [houtcomes] at hhandling
  rw [hend] at hconclude
  rw [hraised] at hmove
  have hflag : Sample.processor.settings.deleteNonRetryable.truthy = false := by decide +kernel
  have hdistinct : Batch.DistinctIds Sample.post := fun _ =>
    (List.filter_sublist.map Message.id).nodup (by decide)
  have hcalls : calls (Sample.concluding Sample.postOutcomes Sample.busyService) =
      (calls (Sample.concluding Sample.postOutcomes Sample.busyService)).take 6 ++
        calls (Sample.moving.exec (.service Sample.busyService) ()).1 ++ [] := by decide +kernel
  have hstages := Stages.concluded hhandling hconclude
  have hqueues : queues Sample.final =
      [Sample.billsUrl] ++ Sample.ordersUrl :: [Sample.notesUrl] := by decide +kernel
  refine ⟨_, hstages, hflag, hdistinct, by decide +kernel,
    ⟨_, hcalls.trans (List.append_nil _), hmove⟩, hqueues, ?_⟩
  obtain ⟨-, -, earlier, later, hsplit, hinterrupted⟩ :=
    (redrive_error_contained hstages hflag hdistinct).2.moving _ _ _ _ _ hcalls hmove
  obtain ⟨rfl, -, rfl⟩ := (List.append_cons_inj_of_notMem (by decide +kernel)
    (by decide +kernel)).1 (hqueues.symm.trans hsplit)
  exact hinterrupted

end Processor
end PartialBatch
