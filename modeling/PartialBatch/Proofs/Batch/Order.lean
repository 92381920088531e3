/-
# The order of the cleanup calls

The calls of every course, whether it runs to its end or is cut short, are the beginning of calls
of one shape (`Whole`):

| mode | calls |
| --- | --- |
| failures are deleted, or none is to be moved | deletes |
| failures are to be moved | deletes of the successes, then a block for each of their queues |

A block (`WholeBlock`) reads the redrive policy of its queue, sends to the dead-letter queue which
that names, if it does, and deletes from its queue what was moved. The blocks come in the order in
which their queues are first seen among the failures to move.

A course that is cut short is made whole by deleting and sending what remains, and by blocks for
the queues that it did not reach (`Reconciled.exists_whole`). What the shape says about the order
of two calls holds in every beginning of it (`Batch.Orderly`).
-/

import PartialBatch.Proofs.Batch.Exactness
import Mathlib.Data.List.Forall2

namespace PartialBatch
namespace Batch

variable {size : Size} {queueUrl u : Text} {groups : QueueGroups} {ms : List Message}
  {m : Message} {cs ds before after : List Call} {css : List (List Call)} {us : List Text}
  {c : Call} {stop : Option Error} {shares others : Text → List Message}

/-! ## Deletes -/

/-- Whether calls delete from each queue the messages that it has a share of, and nothing else. -/
structure Deletes (shares : Text → List Message) (cs : List Call) : Prop where
  only : ∀ c ∈ cs, ∃ u, shares u ≠ [] ∧ DeletesOf u (shares u) c
  each : ∀ u, entriesOf (deletesFrom u cs) = (shares u).map Message.deleteEntry

theorem Deletes.congr (h : Deletes shares cs) (heq : ∀ u, shares u = others u) :
    Deletes others cs := funext heq ▸ h

theorem Deletes.isDelete (h : Deletes shares cs) : ∀ c ∈ cs, c.request.isDelete := by
  intro c hc
  obtain ⟨u, -, hdeletes⟩ := h.only c hc
  exact hdeletes.isDelete

/-- A delete from a queue is for messages that the queue has a share of. -/
theorem Deletes.of_deletesFrom (h : Deletes shares cs) (hc : c ∈ cs)
    (hfrom : c.request.deletesFrom u = true) : shares u ≠ [] ∧ DeletesOf u (shares u) c := by
  obtain ⟨v, hne, hdeletes⟩ := h.only c hc
  rw [hdeletes.deletesFrom_eq] at hfrom
  obtain rfl := of_decide_eq_true hfrom
  exact ⟨hne, hdeletes⟩

theorem deletes_nil : Deletes (fun _ => []) [] := ⟨by simp, fun _ => rfl⟩

/-- Deletes and more deletes are for both shares of each queue. -/
theorem Deletes.append (h : Deletes shares cs) (h' : Deletes others ds) :
    Deletes (fun u => shares u ++ others u) (cs ++ ds) where
  only := by
    intro c hc
    rcases List.mem_append.1 hc with hc | hc
    · obtain ⟨u, hne, es, hr, hes⟩ := h.only c hc
      refine ⟨u, by simp [hne], es, hr, fun entry hentry => ?_⟩
      obtain ⟨m, hm, rfl⟩ := hes entry hentry
      exact ⟨m, List.mem_append_left _ hm, rfl⟩
    · obtain ⟨u, hne, es, hr, hes⟩ := h'.only c hc
      refine ⟨u, by simp [hne], es, hr, fun entry hentry => ?_⟩
      obtain ⟨m, hm, rfl⟩ := hes entry hentry
      exact ⟨m, List.mem_append_right _ hm, rfl⟩
  each u := by rw [deletesFrom_append, entriesOf_append, h.each, h'.each, List.map_append]

/-- Requests that hold the entries of messages delete these from the one queue that they name. -/
theorem deletes_of_entriesOf
    (hto : ∀ c ∈ cs, ∃ es, c.request = .delete (.text queueUrl) (.list es))
    (hentries : entriesOf cs = ms.map Message.deleteEntry) (hne : cs ≠ [] → ms ≠ []) :
    Deletes (fun u => if queueUrl = u then ms else []) cs := by
  have hdeletes (c : Call) (hc : c ∈ cs) : DeletesOf queueUrl ms c := by
    obtain ⟨es, hr⟩ := hto c hc
    refine ⟨es, hr, fun entry hentry => ?_⟩
    have hmem : entry ∈ entriesOf cs :=
      List.mem_flatMap.2 ⟨c, hc, by rwa [hr]⟩
    rw [hentries] at hmem
    obtain ⟨m, hm, rfl⟩ := List.mem_map.1 hmem
    exact ⟨m, hm, rfl⟩
  constructor
  · intro c hc
    refine ⟨queueUrl, ?_⟩
    rw [if_pos rfl]
    exact ⟨hne (List.ne_nil_of_mem hc), hdeletes c hc⟩
  · intro u
    rw [deletesFrom_of_deletesOf fun c hc => ⟨ms, hdeletes c hc⟩]
    by_cases hu : queueUrl = u
    · rw [if_pos hu, if_pos hu, hentries]
    · rw [if_neg hu, if_neg hu]
      rfl

/-! ## Making plans whole -/

/-- What a plan in chunks did not reach can be asked for in one more request. -/
theorem exists_rest_of_chunkPlan {β : Type} {read : Value → Except Error β} {bs : List β}
    {request : Value → Request} {entries : List Value}
    (h : Issued read (chunkPlan request entries size) cs bs stop)
    (hrequest : ∀ es, (request (.list es)).entries = es) :
    ∃ more, (stop = none → more = []) ∧
      (∀ c ∈ cs ++ more, ∃ es, c.request = request (.list es)) ∧
      entriesOf (cs ++ more) = entries := by
  have hto (c : Call) (hc : c ∈ cs) : ∃ es, c.request = request (.list es) :=
    have ⟨es, hr, _⟩ := exists_of_mem_chunkPlan (h.request_mem hc)
    ⟨es, hr⟩
  cases stop with
  | none =>
    refine ⟨[], fun _ => rfl, ?_, ?_⟩
    · simpa using hto
    · rw [List.append_nil]
      exact entriesOf_of_chunkPlan h hrequest
  | some e =>
    obtain ⟨rest, hrest⟩ := entriesOf_prefix_of_chunkPlan h hrequest
    by_cases hnil : rest = []
    · refine ⟨[], fun _ => rfl, ?_, ?_⟩
      · simpa using hto
      · rw [List.append_nil, ← hrest, hnil, List.append_nil]
    · refine ⟨[⟨request (.list rest), .ok .null⟩], by simp, fun c hc => ?_, ?_⟩
      · rcases List.mem_append.1 hc with hc | hc
        · exact hto c hc
        · obtain rfl := List.mem_singleton.1 hc
          exact ⟨rest, rfl⟩
      · rw [entriesOf_append, ← hrest]
        simp [entriesOf, hrequest]

/-- The plan for a queue is made whole. -/
theorem exists_deletes_of_deletePlan {lists : List (List Value)}
    (h : Issued QueueClient.failedEntries (deletePlan size queueUrl ms) cs lists stop) :
    ∃ more, (stop = none → more = []) ∧
      Deletes (fun u => if queueUrl = u then ms else []) (cs ++ more) := by
  unfold deletePlan at h
  split at h
  · rename_i hempty
    cases h
    refine ⟨[], fun _ => rfl, deletes_of_entriesOf (by simp) ?_ (by simp)⟩
    rw [List.isEmpty_iff.1 hempty]
    rfl
  · rename_i hne
    obtain ⟨more, hmore, hto, hentries⟩ := exists_rest_of_chunkPlan h fun _ => rfl
    refine ⟨more, hmore, deletes_of_entriesOf hto hentries fun _ hms => hne ?_⟩
    rw [hms]
    rfl

/-- A plan can end at its first request. -/
theorem exists_issued {β : Type} (read : Value → Except Error β) (plan : Plan) :
    ∃ cs bs stop, Issued read plan cs bs stop := by
  cases plan with
  | nil => exact ⟨_, _, _, .done⟩
  | cons step plan =>
    cases step with
    | error e => exact ⟨_, _, _, .refused⟩
    | ok r =>
      have hread : (Except.error (.unworded .typeError) : Except Error Value) >>= read =
        .error (.unworded .typeError) := rfl
      exact ⟨_, _, _, .failed hread⟩

/-- **The plan for groups is made whole.** -/
theorem exists_deletes_of_groupsPlan {lists : List (List Value)}
    (h : Issued QueueClient.failedEntries (groupsPlan size groups) cs lists stop) :
    ∃ more, (stop = none → more = []) ∧
      Deletes (fun u => groups.flatMap fun group => if group.1 = u then group.2 else [])
        (cs ++ more) := by
  induction groups generalizing cs lists stop with
  | nil =>
    cases h
    exact ⟨[], fun _ => rfl, deletes_nil⟩
  | cons group rest ih =>
    obtain ⟨e, rfl, hgroup⟩ | ⟨cs₁, lists₁, cs₂, lists₂, rfl, hgroup, hrest⟩ := h.append_cases
    · obtain ⟨more, -, hgroup⟩ := exists_deletes_of_deletePlan hgroup
      obtain ⟨ds, _, _, hds⟩ := exists_issued QueueClient.failedEntries (groupsPlan size rest)
      obtain ⟨more', -, hrest⟩ := ih hds
      refine ⟨more ++ (ds ++ more'), by simp, ?_⟩
      rw [← List.append_assoc]
      exact hgroup.append hrest
    · obtain ⟨more, hmore, hgroup⟩ := exists_deletes_of_deletePlan hgroup
      obtain ⟨more', hmore', hrest⟩ := ih hrest
      rw [hmore rfl, List.append_nil] at hgroup
      refine ⟨more', hmore', ?_⟩
      rw [List.append_assoc]
      exact hgroup.append hrest

/-! ## Blocks -/

/-- The calls of a block that is whole. -/
inductive WholeBlock (queueUrl : Text) (ms : List Message) : List Call → Prop
  /-- The answer names no dead-letter queue, or a message cannot be sent. -/
  | bare {answer : Except Error Value}
      (hroute : ∀ target, route queueUrl ms answer ≠ .ok (some target)) :
      WholeBlock queueUrl ms [⟨QueueClient.policyRequest queueUrl, answer⟩]
  /-- All messages are sent to the dead-letter queue, and what was moved is deleted. -/
  | moving {answer : Except Error Value} {deadLetterUrl : Text} {sends deletes : List Call}
      (hroute : route queueUrl ms answer = .ok (some (deadLetterUrl, entriesOf sends)))
      (hto : ∀ c ∈ sends, ∃ es, c.request = .send (.text deadLetterUrl) (.list es))
      (hdeletes : Deletes (fun u => if queueUrl = u then unlisted sends ms else []) deletes) :
      WholeBlock queueUrl ms (⟨QueueClient.policyRequest queueUrl, answer⟩ :: (sends ++ deletes))

/-- **A block is made whole.** -/
theorem Block.exists_whole (h : Block size queueUrl ms cs stop) :
    ∃ more, (stop = none → more = []) ∧ WholeBlock queueUrl ms (cs ++ more) := by
  cases h with
  | unmoved hmove =>
    obtain ⟨answer, sends, rfl, hrouted⟩ := hmove.routed
    generalize hroute : route queueUrl ms answer = r at hrouted
    cases hrouted with
    | lost => exact ⟨[], by simp, .bare (by simp [hroute])⟩
    | unsent hissued =>
      obtain ⟨more, -, hto, rfl⟩ := exists_rest_of_chunkPlan hissued fun _ => rfl
      obtain ⟨ds, _, _, hds⟩ := exists_issued QueueClient.failedEntries
        (deletePlan size queueUrl (unlisted (sends ++ more) ms))
      obtain ⟨more', -, hdeletes⟩ := exists_deletes_of_deletePlan hds
      refine ⟨more ++ (ds ++ more'), by simp, ?_⟩
      rw [List.cons_append, ← List.append_assoc]
      exact .moving hroute hto hdeletes
  | moved hmove hdelete =>
    obtain ⟨answer, sends, rfl, hrouted⟩ := hmove.routed
    generalize hroute : route queueUrl ms answer = r at hrouted
    cases hrouted with
    | absent =>
      cases hdelete
      exact ⟨[], fun _ => rfl, .bare (by simp [hroute])⟩
    | sent hissued =>
      obtain ⟨more, hmore, hto, rfl⟩ := exists_rest_of_chunkPlan hissued fun _ => rfl
      obtain rfl := hmore rfl
      rw [List.append_nil] at hto hroute
      obtain ⟨more', hmore', hdeletes⟩ := exists_deletes_of_deletePlan hdelete
      refine ⟨more', hmore', ?_⟩
      rw [List.cons_append, List.cons_append, List.append_assoc]
      exact .moving hroute hto hdeletes

/-- Every queue can have a whole block. -/
theorem exists_wholeBlocks (groups : QueueGroups) :
    ∃ css, List.Forall₂ (fun group => WholeBlock group.1 group.2) groups css := by
  induction groups with
  | nil => exact ⟨[], .nil⟩
  | cons group rest ih =>
    obtain ⟨css, hrest⟩ := ih
    have hroute : route group.1 group.2 (.ok (.object [])) = .ok none := rfl
    have hnone (target) : route group.1 group.2 (.ok (.object [])) ≠ .ok (some target) := by
      simp [hroute]
    exact ⟨_, .cons (.bare hnone) hrest⟩

/-- **Blocks are made whole**, and are followed by blocks for the queues that were not reached. -/
theorem Redriven.exists_whole (h : Redriven size groups cs stop) :
    ∃ more css, (stop = none → more = []) ∧ cs ++ more = css.flatten ∧
      List.Forall₂ (fun group => WholeBlock group.1 group.2) groups css := by
  induction h with
  | done => exact ⟨[], [], fun _ => rfl, rfl, .nil⟩
  | @halted queueUrl ms groups cs e hblock =>
    obtain ⟨more, -, hwhole⟩ := hblock.exists_whole
    obtain ⟨css, hrest⟩ := exists_wholeBlocks groups
    refine ⟨more ++ css.flatten, _ :: css, by simp, ?_, .cons hwhole hrest⟩
    rw [List.flatten_cons, List.append_assoc]
  | @next queueUrl ms groups cs ds stop hblock _ ih =>
    obtain ⟨more, hmore, hwhole⟩ := hblock.exists_whole
    obtain ⟨more', css, hmore', heq, hrest⟩ := ih
    rw [hmore rfl, List.append_nil] at hwhole
    refine ⟨more', cs :: css, hmore', ?_, .cons hwhole hrest⟩
    rw [List.append_assoc, heq, List.flatten_cons]

/-- The parts of a whole block. -/
theorem WholeBlock.exists_parts (h : WholeBlock queueUrl ms cs) :
    ∃ answer sends deletes, cs = ⟨QueueClient.policyRequest queueUrl, answer⟩ :: (sends ++ deletes) ∧
      (∀ c ∈ sends, c.request.isSend) ∧ (∀ c ∈ deletes, ∃ ns, DeletesOf queueUrl ns c) ∧
      (deletes ≠ [] → Message.sendEntries ms = .ok (entriesOf sends)) := by
  cases h with
  | @bare answer hroute => exact ⟨answer, [], [], rfl, by simp, by simp, by simp⟩
  | @moving answer deadLetterUrl sends deletes hroute hto hdeletes =>
    refine ⟨answer, sends, deletes, rfl, isSend_of_to hto, fun c hc => ?_, fun _ => ?_⟩
    · obtain ⟨u, hne, hof⟩ := hdeletes.only c hc
      by_cases hu : queueUrl = u
      · obtain rfl := hu
        exact ⟨_, hof⟩
      · rw [if_neg hu] at hne
        exact absurd rfl hne
    · exact sendEntries_of_route hroute

/-- Sends of a whole block are on behalf of its queue. -/
theorem WholeBlock.sendsFor_eq_nil (h : WholeBlock queueUrl ms cs) (hne : queueUrl ≠ u) :
    sendsFor u cs = [] := by
  obtain ⟨answer, sends, deletes, rfl, hsends, hdeletes, -⟩ := h.exists_parts
  rw [← List.append_nil (_ :: _), sendsFor,
    sendsWhile_block hsends (isDelete_of_deletesOf hdeletes), if_neg hne]
  rfl

/-- Sends that follow a whole block are on behalf of its queue, up to the next reading. -/
theorem WholeBlock.sendsWhile_append {active : Bool} {rest : List Call}
    (h : WholeBlock queueUrl ms cs) :
    sendsWhile u active (cs ++ rest) = sendsFor u cs ++ sendsWhile u (queueUrl = u) rest := by
  obtain ⟨answer, sends, deletes, rfl, hsends, hdeletes, -⟩ := h.exists_parts
  have hdelete := isDelete_of_deletesOf hdeletes
  have halone : sendsFor u (⟨QueueClient.policyRequest queueUrl, answer⟩ :: (sends ++ deletes)) =
      if queueUrl = u then sends else [] := by
    rw [← List.append_nil (_ :: _), sendsFor, sendsWhile_block hsends hdelete, sendsWhile_nil,
      List.append_nil]
  rw [halone, sendsWhile_block hsends hdelete]

/-- A delete in a whole block is from its queue, and comes after all its sends. -/
theorem WholeBlock.sends_before_deletes (h : WholeBlock queueUrl ms cs)
    (hcs : cs = before ++ c :: after) (hfrom : c.request.deletesFrom u = true) :
    queueUrl = u ∧ Message.sendEntries ms = .ok (entriesOf (sendsFor u before)) ∧
      sendsFor u cs = sendsFor u before := by
  obtain ⟨answer, sends, deletes, rfl, hsends, hdeletes, hsent⟩ := h.exists_parts
  have hdelete := isDelete_of_deletesOf hdeletes
  cases before with
  | nil =>
    obtain rfl := (List.cons.inj hcs).1
    cases hfrom
  | cons first before =>
    obtain ⟨rfl, htail⟩ := List.cons.inj hcs
    obtain ⟨mid, hmid, -⟩ | ⟨mid, rfl, hmid⟩ := split_append htail
    · have hc : c ∈ sends := hmid ▸ List.mem_append_cons_self
      exact (Request.not_isDelete_of_isSend (hsends c hc)
        (Request.isDelete_of_deletesFrom hfrom)).elim
    · have hc : c ∈ deletes := hmid ▸ List.mem_append_cons_self
      have hmem (d : Call) (hd : d ∈ mid) : d.request.isDelete :=
        hdelete d (hmid ▸ List.mem_append_left _ hd)
      obtain ⟨ns, hof⟩ := hdeletes c hc
      rw [hof.deletesFrom_eq] at hfrom
      obtain rfl := of_decide_eq_true hfrom
      -- the deletes around `c` make no difference to the sends that are found
      have hfound {ds : List Call} (hds : ∀ d ∈ ds, d.request.isDelete) : sendsFor queueUrl
          (⟨QueueClient.policyRequest queueUrl, answer⟩ :: (sends ++ ds)) = sends := by
        rw [sendsFor, sendsWhile_policyRequest, sendsWhile_append_deletes hds,
          sendsWhile_sends hsends]
        simp
      rw [hfound hdelete, hfound hmem]
      exact ⟨rfl, hsent (List.ne_nil_of_mem hc), rfl⟩

section Blocks

variable {f : Text → List Message}

/-- In whole blocks the redrive policy of each of their queues is read once, and no other. -/
theorem length_policyReads (h : List.Forall₂ (fun u => WholeBlock u (f u)) us css) :
    (policyReads u css.flatten).length = us.count u := by
  induction h with
  | nil => rfl
  | @cons v cs us css hblock hrest ih =>
    obtain ⟨answer, sends, deletes, rfl, hsends, hdeletes, -⟩ := hblock.exists_parts
    rw [List.flatten_cons, policyReads_append, List.length_append, ih,
      policyReads_block hsends (isDelete_of_deletesOf hdeletes), List.count_cons]
    by_cases hv : v = u
    · simp [hv, Nat.add_comm]
    · simp [hv]

/-- In whole blocks nothing is sent on behalf of a queue that has none. -/
theorem sendsWhile_eq_nil {active : Bool}
    (h : List.Forall₂ (fun u => WholeBlock u (f u)) us css) (hu : u ∉ us) :
    sendsWhile u active css.flatten = [] := by
  induction h generalizing active with
  | nil => rfl
  | cons hblock hrest ih =>
    rw [List.mem_cons, not_or] at hu
    rw [List.flatten_cons, hblock.sendsWhile_append, hblock.sendsFor_eq_nil (Ne.symm hu.1),
      ih hu.2]
    rfl

/-- **A delete in whole blocks comes after all sends for its queue.** -/
theorem sends_before_deletes (h : List.Forall₂ (fun u => WholeBlock u (f u)) us css)
    (hnodup : us.Nodup) (hcs : css.flatten = before ++ c :: after)
    (hfrom : c.request.deletesFrom u = true) :
    u ∈ us ∧ Message.sendEntries (f u) = .ok (entriesOf (sendsFor u before)) ∧
      sendsFor u css.flatten = sendsFor u before := by
  induction h generalizing before with
  | nil => simp at hcs
  | @cons v cs us css hblock hrest ih =>
    rw [List.nodup_cons] at hnodup
    rw [List.flatten_cons] at hcs ⊢
    obtain ⟨mid, hsplit, -⟩ | ⟨mid, rfl, hsplit⟩ := split_append hcs
    · -- the delete is in this block, and later ones are not of its queue
      obtain ⟨rfl, hentries, hall⟩ := hblock.sends_before_deletes hsplit hfrom
      refine ⟨List.mem_cons_self .., hentries, ?_⟩
      rw [sendsFor, hblock.sendsWhile_append, sendsWhile_eq_nil hrest hnodup.1, List.append_nil,
        hall]
    · obtain ⟨hu, hentries, hall⟩ := ih hnodup.2 hsplit
      have hne : v ≠ u := fun heq => hnodup.1 (heq ▸ hu)
      have hskip (rest : List Call) : sendsFor u (cs ++ rest) = sendsFor u rest := by
        rw [sendsFor, hblock.sendsWhile_append, hblock.sendsFor_eq_nil hne,
          decide_eq_false hne]
        rfl
      rw [hskip, hskip]
      exact ⟨List.mem_cons_of_mem _ hu, hentries, hall⟩

end Blocks

/-! ## The whole shape -/

section Reconciliation

variable {settings : Settings} {triage : Triage} {succeeded final : List Message}
  {failed : List (Message × Error)}

/-- The shape of the calls after the outcomes of a batch. -/
inductive Whole (settings : Settings) (succeeded final : List Message) : List Call → Prop
  | deleting {cs : List Call} (hmode : settings.deleteNonRetryable.truthy = true ∨ final = [])
      (hdeletes : Deletes (fun u => (succeeded ++ final).filter (Message.isFrom u)) cs) :
      Whole settings succeeded final cs
  | redriving {cs : List Call} {css : List (List Call)}
      (hflag : settings.deleteNonRetryable.truthy = false) (hfinal : final ≠ [])
      (hdeletes : Deletes (fun u => succeeded.filter (Message.isFrom u)) cs)
      (hblocks : List.Forall₂ (fun u => WholeBlock u (final.filter (Message.isFrom u)))
        (queues final) css) :
      Whole settings succeeded final (cs ++ css.flatten)

/-- Deletes of the successes and a block for each queue of a failure to move are whole, also if
there is no such failure. -/
theorem whole_of_blocks (hflag : settings.deleteNonRetryable.truthy = false)
    (hdeletes : Deletes (fun u => succeeded.filter (Message.isFrom u)) cs)
    (hblocks : List.Forall₂ (fun group => WholeBlock group.1 group.2)
      (QueueGroups.byQueue final) css) :
    Whole settings succeeded final (cs ++ css.flatten) := by
  rw [QueueGroups.byQueue, List.forall₂_map_left_iff] at hblocks
  by_cases hfinal : final = []
  · subst hfinal
    cases hblocks
    refine .deleting (.inr rfl) ?_
    simpa using hdeletes
  · exact .redriving hflag hfinal hdeletes hblocks

/-- Messages can be deleted from their queues. -/
theorem exists_deletes (ms : List Message) :
    ∃ cs, Deletes (fun u => ms.filter (Message.isFrom u)) cs := by
  obtain ⟨cs, _, _, hissued⟩ :=
    exists_issued QueueClient.failedEntries (groupsPlan 1 (QueueGroups.byQueue ms))
  obtain ⟨more, -, hdeletes⟩ := exists_deletes_of_groupsPlan hissued
  exact ⟨cs ++ more, hdeletes.congr QueueGroups.flatMap_byQueue⟩

/-- There are calls of the shape. -/
theorem exists_whole (settings : Settings) (succeeded final : List Message) :
    ∃ cs, Whole settings succeeded final cs := by
  cases hflag : settings.deleteNonRetryable.truthy with
  | true =>
    obtain ⟨cs, hdeletes⟩ := exists_deletes (succeeded ++ final)
    exact ⟨cs, .deleting (.inl hflag) hdeletes⟩
  | false =>
    obtain ⟨cs, hdeletes⟩ := exists_deletes succeeded
    obtain ⟨css, hblocks⟩ := exists_wholeBlocks (QueueGroups.byQueue final)
    exact ⟨_, whole_of_blocks hflag hdeletes hblocks⟩

/-- **The calls of a reconciliation are the beginning of whole ones**, and are whole themselves if
it ends well. -/
theorem Reconciled.exists_whole (h : Reconciled settings triage succeeded failed cs stop) :
    ∃ more, (stop = none → more = []) ∧
      Whole settings succeeded (finals triage failed) (cs ++ more) := by
  have hshares {groups : QueueGroups} {ms : List Message} (hsorts : groups.Sorts ms) (u : Text) :
      (groups.flatMap fun group => if group.1 = u then group.2 else []) =
        ms.filter (Message.isFrom u) := by
    rw [hsorts.eq_byQueue, QueueGroups.flatMap_byQueue]
  cases h with
  | undecided =>
    obtain ⟨all, hwhole⟩ := Batch.exists_whole settings succeeded (finals triage failed)
    exact ⟨all, by simp, hwhole⟩
  | unlocated =>
    obtain ⟨all, hwhole⟩ := Batch.exists_whole settings succeeded (finals triage failed)
    exact ⟨all, by simp, hwhole⟩
  | deleting hflag hgroups hothers hissued =>
    obtain ⟨more, hmore, hdeletes⟩ := exists_deletes_of_groupsPlan hissued
    refine ⟨more, hmore, .deleting (.inl hflag) (hdeletes.congr fun u => ?_)⟩
    rw [QueueGroups.flatMap_joined hgroups.nodup hothers.nodup, hgroups.get_eq, hothers.get_eq,
      List.filter_append]
  | halted hflag hgroups hothers hissued =>
    obtain ⟨more, -, hdeletes⟩ := exists_deletes_of_groupsPlan hissued
    obtain ⟨css, hblocks⟩ := exists_wholeBlocks (QueueGroups.byQueue (finals triage failed))
    refine ⟨more ++ css.flatten, by simp, ?_⟩
    rw [← List.append_assoc]
    exact whole_of_blocks hflag (hdeletes.congr (hshares hgroups)) hblocks
  | redriving hflag hgroups hothers hissued hredriven =>
    obtain ⟨more, hmore, hdeletes⟩ := exists_deletes_of_groupsPlan hissued
    obtain ⟨more', css, hmore', heq, hblocks⟩ := hredriven.exists_whole
    rw [hmore rfl, List.append_nil] at hdeletes
    refine ⟨more', hmore', ?_⟩
    rw [List.append_assoc, heq]
    exact whole_of_blocks hflag (hdeletes.congr (hshares hgroups)) (hothers.eq_byQueue ▸ hblocks)

/-! ## What the shape says -/

/-- A call that does not delete comes after the deletes of all successes. -/
theorem Whole.successes_first (h : Whole settings succeeded final cs)
    (hcs : cs = before ++ c :: after) (hc : ¬c.request.isDelete) :
    (succeeded.filter (Message.isFrom u)).map Message.deleteEntry <+:
      entriesOf (deletesFrom u before) := by
  cases h with
  | deleting hmode hdeletes =>
    have hmem : c ∈ cs := hcs ▸ List.mem_append_cons_self
    exact absurd (hdeletes.isDelete c hmem) hc
  | @redriving ds css hflag hfinal hdeletes hblocks =>
    obtain ⟨mid, hds, -⟩ | ⟨mid, rfl, -⟩ := split_append hcs
    · have hmem : c ∈ ds := hds ▸ List.mem_append_cons_self
      exact absurd (hdeletes.isDelete c hmem) hc
    · rw [deletesFrom_append, entriesOf_append, hdeletes.each]
      exact List.prefix_append ..

/-- The redrive policy of a queue is read once if failures of it are to be moved, else never. -/
theorem Whole.length_policyReads (h : Whole settings succeeded final cs) :
    (policyReads u cs).length ≤ 1 ∧
      (policyReads u cs ≠ [] → settings.deleteNonRetryable.truthy = false ∧ u ∈ queues final) := by
  cases h with
  | deleting hmode hdeletes =>
    rw [policyReads_eq_nil fun c hc => .inr (hdeletes.isDelete c hc)]
    exact ⟨Nat.zero_le _, fun hne => absurd rfl hne⟩
  | @redriving ds css hflag hfinal hdeletes hblocks =>
    rw [policyReads_append, policyReads_eq_nil fun c hc => .inr (hdeletes.isDelete c hc),
      List.nil_append, Batch.length_policyReads hblocks]
    refine ⟨List.nodup_iff_count_le_one.1 (nodup_queues final) u, fun hne => ⟨hflag, ?_⟩⟩
    by_contra hu
    have hlength := Batch.length_policyReads (u := u) hblocks
    rw [List.count_eq_zero_of_not_mem hu] at hlength
    exact hne (List.eq_nil_of_length_eq_zero hlength)

/-- A delete from a queue whose failures are to be moved is for successes, or it comes after all
sends for the queue. -/
theorem Whole.sends_before_deletes (h : Whole settings succeeded final cs)
    (hflag : settings.deleteNonRetryable.truthy = false) (hcs : cs = before ++ c :: after)
    (hfrom : c.request.deletesFrom u = true) :
    DeletesOf u (succeeded.filter (Message.isFrom u)) c ∨
      Message.sendEntries (final.filter (Message.isFrom u)) = .ok (entriesOf (sendsFor u before)) ∧
        sendsFor u cs = sendsFor u before := by
  cases h with
  | deleting hmode hdeletes =>
    obtain rfl : final = [] := hmode.resolve_left (by simp [hflag])
    have hmem : c ∈ cs := hcs ▸ List.mem_append_cons_self
    rw [List.append_nil] at hdeletes
    exact .inl (hdeletes.of_deletesFrom hmem hfrom).2
  | @redriving ds css hflag hfinal hdeletes hblocks =>
    obtain ⟨mid, hds, -⟩ | ⟨mid, rfl, hflatten⟩ := split_append hcs
    · have hmem : c ∈ ds := hds ▸ List.mem_append_cons_self
      exact .inl (hdeletes.of_deletesFrom hmem hfrom).2
    · obtain ⟨-, hentries, hall⟩ :=
        Batch.sends_before_deletes hblocks (nodup_queues final) hflatten hfrom
      have hskip (rest : List Call) : sendsFor u (ds ++ rest) = sendsFor u rest :=
        sendsWhile_deletes_append hdeletes.isDelete
      rw [hskip, hskip]
      exact .inr ⟨hentries, hall⟩

/-- Whether calls come in the order of a cleanup. -/
structure Orderly (settings : Settings) (succeeded final : List Message) (cs : List Call) :
    Prop where
  /-- They are the beginning of calls of the shape. -/
  shape : ∃ all, cs <+: all ∧ Whole settings succeeded final all
  /-- The first call that does not delete comes after the deletes of all successes. -/
  successes_first : ∀ before c after, cs = before ++ c :: after → ¬c.request.isDelete →
    ∀ u, (succeeded.filter (Message.isFrom u)).map Message.deleteEntry <+:
      entriesOf (deletesFrom u before)
  /-- The redrive policy of a queue is read once at most, and only if failures of the queue are to
  be moved. -/
  read_once : ∀ u, (policyReads u cs).length ≤ 1 ∧
    (policyReads u cs ≠ [] → settings.deleteNonRetryable.truthy = false ∧ u ∈ queues final)
  /-- A failure that is moved is deleted after all sends for its queue: by then all entries for the
  queue were sent, and none is sent later. -/
  sends_first : settings.deleteNonRetryable.truthy = false →
    ∀ before c after u, cs = before ++ c :: after → c.request.deletesFrom u = true →
      DeletesOf u (succeeded.filter (Message.isFrom u)) c ∨
        Message.sendEntries (final.filter (Message.isFrom u)) =
            .ok (entriesOf (sendsFor u before)) ∧
          sendsFor u cs = sendsFor u before

/-- **The beginning of calls of the shape is in order.** -/
theorem Whole.orderly {more : List Call} (h : Whole settings succeeded final (cs ++ more)) :
    Orderly settings succeeded final cs where
  shape := ⟨_, List.prefix_append .., h⟩
  successes_first := by
    rintro before c after rfl hc u
    exact h.successes_first (List.append_assoc ..) hc
  read_once := by
    intro u
    obtain ⟨hlength, hneeded⟩ := h.length_policyReads (u := u)
    rw [policyReads_append] at hlength hneeded
    refine ⟨?_, fun hne => hneeded (List.append_ne_nil_of_left_ne_nil hne _)⟩
    rw [List.length_append] at hlength
    exact Nat.le_of_add_right_le hlength
  sends_first := by
    rintro hflag before c after u rfl hfrom
    refine (h.sends_before_deletes hflag (List.append_assoc ..) hfrom).imp_right ?_
    rintro ⟨hentries, hall⟩
    -- the sends that are found in the middle lie between those at both ends
    have hlower : sendsFor u before <+: sendsFor u (before ++ c :: after) := sendsWhile_prefix
    have hupper : sendsFor u (before ++ c :: after) <+: sendsFor u before :=
      hall ▸ sendsWhile_prefix
    exact ⟨hentries, hupper.eq_of_length_le hlower.length_le⟩

end Reconciliation

end Batch

/-! ## Courses of a batch -/

namespace Processor

variable {p : Processor} {ms : List Message} {handler : Handler} {t : List Event}
  {x : Except Error (List Value)}

/-- **The cleanup calls come in order**, in every course of a batch; there are none if no message
failed. -/
theorem cleanup_in_order (h : (p.process ms handler).Ends t x) :
    ∃ handled outcomes rest, t = handled ++ rest ∧ p.Stages ms handler handled outcomes rest x ∧
      (Batch.failures outcomes = [] → calls rest = []) ∧
      Batch.Orderly p.settings ((Batch.successes outcomes).map Prod.fst)
        (Batch.finals p.triage (Batch.failures outcomes)) (calls rest) := by
  obtain ⟨handled, outcomes, rest, rfl, hstages⟩ := ends_process.1 h
  obtain ⟨u, y, hconclude, hcalls⟩ := hstages.exists_conclusion
  refine ⟨handled, outcomes, rest, rfl, hstages, ?_, ?_⟩
  · intro hfailures
    rw [← hcalls]
    exact calls_of_conclude hconclude hfailures
  · rw [← hcalls]
    obtain hnil | ⟨stop, hreconciled⟩ := reconciled_of_conclude hconclude
    · rw [hnil]
      obtain ⟨all, hwhole⟩ := Batch.exists_whole p.settings _ _
      exact hwhole.orderly
    · obtain ⟨more, -, hwhole⟩ := hreconciled.exists_whole
      exact hwhole.orderly

/-- Such a course: the successes are deleted first, and `b` after its send. -/
theorem cleanup_in_order_sample : ∃ t x,
    (Sample.processor.process Sample.orders Consumer.handler).Ends t x ∧
      (calls t).map Call.request = Sample.requests ∧
      ∃ handled outcomes rest, t = handled ++ rest ∧
        Sample.processor.Stages Sample.orders Consumer.handler handled outcomes rest x ∧
        (Batch.failures outcomes = [] → calls rest = []) ∧
        Batch.Orderly Sample.processor.settings ((Batch.successes outcomes).map Prod.fst)
          (Batch.finals Sample.processor.triage (Batch.failures outcomes)) (calls rest) := by
  have h := Run.ends_exec (.service Sample.service)
    (Sample.processor.process Sample.orders Consumer.handler) ()
  exact ⟨_, _, h, by decide +kernel, cleanup_in_order h⟩

end Processor
end PartialBatch
