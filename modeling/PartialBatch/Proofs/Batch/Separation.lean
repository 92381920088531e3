/-
# Queues do not interfere

A batch may mix the messages of any number of queues. If the outcome of a message is given by a rule,
and so is the answer to a request, then what a cleanup calls for one queue is what it calls in a batch
of that queue's messages alone. Nothing that is kept on the way carries over from one queue to another:

| kept | for a queue |
| --- | --- |
| groups of messages | those of the batch of its messages alone (`QueueGroups.Sorts.single`) |
| deletes | the plan for its group (`restrict_groupsPlan`) |
| ids that were refused | those of its own block (`Redriven.exists_block`) |

Given the answers by a rule, a plan can go one way only (`Issued.unique_of_served`), and so can a block
(`Block.unique_of_served`).
-/

import PartialBatch.Proofs.Batch.Contract
import PartialBatch.Proofs.Batch.Raised

namespace PartialBatch

/-! ## Answers by a rule -/

/-- Whether calls are answered with values by a rule. -/
def Served (serve : Request → Value) (cs : List Call) : Prop :=
  ∀ c ∈ cs, c.answer = .ok (serve c.request)

section Served

variable {serve : Request → Value} {cs ds cs' : List Call} {c : Call}

@[simp] theorem served_cons : Served serve (c :: cs) ↔
    c.answer = .ok (serve c.request) ∧ Served serve cs := by simp [Served]

@[simp] theorem served_append : Served serve (cs ++ ds) ↔ Served serve cs ∧ Served serve ds := by
  simp [Served, or_imp, forall_and]

theorem Served.mono (h : Served serve cs) (hsub : ds ⊆ cs) : Served serve ds :=
  fun c hc => h c (hsub hc)

/-- A service answers by its rule. -/
theorem calls_exec_service {α : Type} {serve : Request → Except Error Value} (r : Run α) :
    ∀ c ∈ calls (r.exec (.service serve) ()).1, c.answer = serve c.request := by
  induction r with
  | done a => simp [Run.exec]
  | raise e => simp [Run.exec]
  | ask q next ih =>
    cases q with
    | request q =>
      intro c hc
      change c ∈ (⟨q, serve q⟩ : Call) :: calls ((next (serve q)).exec (.service serve) ()).1 at hc
      rcases List.mem_cons.1 hc with rfl | hc
      · rfl
      · exact ih _ c hc
    | _ => exact ih _

/-- Beginnings of one plan that are answered by one rule do not part. -/
theorem Served.exists_append_eq {plan : Plan} (hs : Served serve cs) (hs' : Served serve cs')
    (h : cs.map (fun c => .ok c.request) <+: plan)
    (h' : cs'.map (fun c => .ok c.request) <+: plan) : ∃ ds ds', cs ++ ds = cs' ++ ds' := by
  have hserved {bs : List Call} (hbs : Served serve bs) :
      (bs.map Call.request).map (fun r => (⟨r, .ok (serve r)⟩ : Call)) = bs := by
    have hself (c : Call) (hc : c ∈ bs) : (⟨c.request, .ok (serve c.request)⟩ : Call) = id c := by
      rw [← hbs c hc]
      rfl
    rw [List.map_map]
    exact (List.map_congr_left hself).trans (List.map_id bs)
  have hprefix {as bs : List Call} (has : Served serve as) (hbs : Served serve bs)
      (hab : as.map (fun c => (.ok c.request : Except Error Request)) <+:
        bs.map fun c => .ok c.request) : as <+: bs := by
    have hrequests : as.map Call.request <+: bs.map Call.request := by
      have hmap := hab.map (fun r => r.toOption.getD (.attributes .null []))
      rwa [List.map_map, List.map_map] at hmap
    have hmap := hrequests.map (fun r => (⟨r, .ok (serve r)⟩ : Call))
    rwa [hserved has, hserved hbs] at hmap
  obtain hab | hba := List.prefix_or_prefix_of_prefix h h'
  · obtain ⟨ds, hds⟩ := hprefix hs hs' hab
    exact ⟨ds, [], by rw [hds, List.append_nil]⟩
  · obtain ⟨ds, hds⟩ := hprefix hs' hs hba
    exact ⟨[], ds, by rw [hds, List.append_nil]⟩

/-- **Answers by a rule determine how far a plan gets.** -/
theorem Issued.unique_of_served {β : Type} {read : Value → Except Error β} {plan : Plan}
    {bs bs' : List β} {stop stop' : Option Error} (h : Issued read plan cs bs stop)
    (h' : Issued read plan cs' bs' stop') (hs : Served serve cs) (hs' : Served serve cs') :
    cs = cs' ∧ stop = stop' := by
  obtain ⟨ds, ds', heq⟩ := hs.exists_append_eq hs' h.requests_prefix h'.requests_prefix
  exact h.unique h' heq

end Served

/-! ## Groups -/

namespace QueueGroups

variable {groups others : QueueGroups} {ms : List Message} {u : Text}

/-- Groups of one queue are one group, or none. -/
theorem eq_of_single (hnodup : (groups.map Prod.fst).Nodup) (hu : ∀ group ∈ groups, group.1 = u) :
    groups = [] ∨ groups = [(u, groups.get u)] := by
  cases groups with
  | nil => exact .inl rfl
  | cons group rest =>
    have hfirst : group.1 = u := hu group (List.mem_cons_self ..)
    have hrest : rest = [] := by
      refine List.eq_nil_iff_forall_not_mem.2 fun other hother => ?_
      rw [List.map_cons, List.nodup_cons] at hnodup
      have hsame : other.1 = u := hu other (List.mem_cons_of_mem _ hother)
      exact hnodup.1 (List.mem_map.2 ⟨other, hother, hsame.trans hfirst.symm⟩)
    subst hrest
    refine .inr ?_
    rw [get_cons, if_pos hfirst, ← hfirst]

/-- The groups of one queue's messages are of that queue. -/
theorem Sorts.single (h : groups.Sorts (ms.filter (Message.isFrom u))) :
    ∀ group ∈ groups, group.1 = u := by
  intro group hgroup
  obtain ⟨m, hm, hurl⟩ := h.exists_mem hgroup
  have hfrom := Message.isFrom_iff.1 (List.mem_filter.1 hm).2
  exact Except.ok.inj (hurl.symm.trans hfrom)

/-- What those groups have of it is what the groups of all messages have. -/
theorem Sorts.get_eq_of_filter {whole : QueueGroups} (h : groups.Sorts (ms.filter (Message.isFrom u)))
    (hwhole : whole.Sorts ms) : groups.get u = whole.get u := by
  rw [h.get_eq, hwhole.get_eq, List.filter_filter]
  simp

end QueueGroups

namespace Batch

variable {size : Size} {queueUrl u : Text} {groups : QueueGroups} {ms : List Message}
  {serve : Request → Value} {cs cs' : List Call} {stop stop' : Option Error}

/-! ## Deletes for one queue -/

/-- **What a plan for groups deletes from a queue is the plan for its group.** -/
theorem restrict_groupsPlan {lists : List (List Value)}
    (h : Issued QueueClient.failedEntries (groupsPlan size groups) cs lists none)
    (hnodup : (groups.map Prod.fst).Nodup) :
    ∃ lists', Issued QueueClient.failedEntries (deletePlan size u (groups.get u))
      (deletesFrom u cs) lists' none := by
  induction groups generalizing cs lists with
  | nil =>
    cases h
    exact ⟨[], .done⟩
  | cons group rest ih =>
    rw [List.map_cons, List.nodup_cons] at hnodup
    obtain ⟨cs₁, lists₁, cs₂, lists₂, rfl, hgroup, hrest⟩ := Issued.of_append h
    obtain ⟨lists', hothers⟩ := ih hrest hnodup.2
    rw [deletesFrom_append,
      deletesFrom_of_deletesOf fun c hc => ⟨_, deletesOf_of_deletePlan hgroup hc⟩,
      QueueGroups.get_cons]
    by_cases hu : group.1 = u
    · -- the other groups have nothing of the queue
      rw [QueueGroups.get_eq_nil (hu ▸ hnodup.1)] at hothers
      have hnil : deletesFrom u cs₂ = [] := by
        generalize deletesFrom u cs₂ = ds at hothers
        cases hothers
        rfl
      rw [if_pos hu, if_pos hu, hnil, List.append_nil, ← hu]
      exact ⟨lists₁, hgroup⟩
    · rw [if_neg hu, if_neg hu, List.nil_append]
      exact ⟨lists', hothers⟩

/-- For groups of one queue there is one plan. -/
theorem groupsPlan_of_single (hnodup : (groups.map Prod.fst).Nodup)
    (hu : ∀ group ∈ groups, group.1 = u) :
    groupsPlan size groups = deletePlan size u (groups.get u) := by
  obtain rfl | heq := QueueGroups.eq_of_single hnodup hu
  · rfl
  · rw [heq, groupsPlan, List.flatMap_singleton, QueueGroups.get_cons, if_pos rfl]

/-- A plan for groups deletes from a queue what a plan for groups of that queue alone does, if
these have the same messages of it. -/
theorem deletes_of_single {single : QueueGroups} {lists lists' : List (List Value)}
    (h : Issued QueueClient.failedEntries (groupsPlan size groups) cs lists none)
    (h' : Issued QueueClient.failedEntries (groupsPlan size single) cs' lists' stop')
    (hnodup : (groups.map Prod.fst).Nodup) (hnodup' : (single.map Prod.fst).Nodup)
    (hu : ∀ group ∈ single, group.1 = u) (hget : single.get u = groups.get u)
    (hs : Served serve cs) (hs' : Served serve cs') :
    stop' = none ∧ cs' = deletesFrom u cs := by
  obtain ⟨_, hrestricted⟩ := restrict_groupsPlan (u := u) h hnodup
  rw [groupsPlan_of_single hnodup' hu, hget] at h'
  obtain ⟨hcs, hstop⟩ :=
    hrestricted.unique_of_served h' (hs.mono List.filter_sublist.subset) hs'
  exact ⟨hstop.symm, hcs.symm⟩

/-! ## Blocks for one queue -/

/-- The plan to send by a route. -/
def routePlan (size : Size) : Except Error (Option (Text × List Value)) → Plan
  | .ok (some (deadLetterUrl, entries)) => chunkPlan (.send (.text deadLetterUrl)) entries size
  | _ => []

/-- What is sent by a route is the beginning of its plan. -/
theorem Routed.requests_prefix {r : Except Error (Option (Text × List Value))}
    {x : Except Error (List Message)} (h : Routed size ms r cs x) :
    cs.map (fun c => .ok c.request) <+: routePlan size r := by
  cases h with
  | lost => exact List.nil_prefix
  | absent => exact List.nil_prefix
  | unsent hissued => exact hissued.requests_prefix
  | sent hissued => exact hissued.requests_prefix

/-- Answers by a rule determine what moving messages calls, and what it ends in. -/
theorem Moving.unique_of_served {x x' : Except Error (List Message)}
    (h : Moving size queueUrl ms cs x) (h' : Moving size queueUrl ms cs' x')
    (hs : Served serve cs) (hs' : Served serve cs') : cs = cs' ∧ x = x' := by
  obtain ⟨answer, sends, rfl, hrouted⟩ := h.routed
  obtain ⟨answer', sends', rfl, hrouted'⟩ := h'.routed
  rw [served_cons] at hs hs'
  obtain rfl : answer = answer' := hs.1.trans hs'.1.symm
  obtain ⟨ds, ds', heq⟩ :=
    hs.2.exists_append_eq hs'.2 hrouted.requests_prefix hrouted'.requests_prefix
  obtain ⟨rfl, rfl⟩ := hrouted.unique hrouted' heq
  exact ⟨rfl, rfl⟩

/-- **Answers by a rule determine the calls of a block**, and how it ends. -/
theorem Block.unique_of_served (h : Block size queueUrl ms cs stop)
    (h' : Block size queueUrl ms cs' stop') (hs : Served serve cs) (hs' : Served serve cs') :
    cs = cs' ∧ stop = stop' := by
  cases h with
  | unmoved hmove =>
    cases h' with
    | unmoved hmove' =>
      obtain ⟨rfl, heq⟩ := hmove.unique_of_served hmove' hs hs'
      obtain rfl := Except.error.inj heq
      exact ⟨rfl, rfl⟩
    | moved hmove' _ =>
      rw [served_append] at hs'
      cases (hmove.unique_of_served hmove' hs hs'.1).2
  | moved hmove hdelete =>
    rw [served_append] at hs
    cases h' with
    | unmoved hmove' => cases (hmove.unique_of_served hmove' hs.1 hs').2
    | moved hmove' hdelete' =>
      rw [served_append] at hs'
      obtain ⟨rfl, heq⟩ := hmove.unique_of_served hmove' hs.1 hs'.1
      obtain rfl := Except.ok.inj heq
      obtain ⟨rfl, rfl⟩ := hdelete.unique_of_served hdelete' hs.2 hs'.2
      exact ⟨rfl, rfl⟩

/-- Whether calls are the same for a queue: the deletes from it, the readings of its redrive
policy, and the sends on its behalf. -/
structure SameFor (queueUrl : Text) (cs cs' : List Call) : Prop where
  deletes : deletesFrom queueUrl cs = deletesFrom queueUrl cs'
  reads : policyReads queueUrl cs = policyReads queueUrl cs'
  sends : sendsFor queueUrl cs = sendsFor queueUrl cs'

/-- **The calls for a queue in blocks are those of its block.** -/
theorem Redriven.exists_block (h : Redriven size groups cs none)
    (hnodup : (groups.map Prod.fst).Nodup) {group : Text × List Message} (hgroup : group ∈ groups) :
    ∃ bs, Block size group.1 group.2 bs none ∧ bs ⊆ cs ∧ SameFor group.1 cs bs := by
  generalize hs : (none : Option Error) = stop at h
  induction h with
  | done => simp at hgroup
  | halted => cases hs
  | @next queueUrl ms groups cs ds stop hblock hrest ih =>
    obtain rfl := hs
    rw [List.map_cons, List.nodup_cons] at hnodup
    obtain ⟨sends, -, -, hsends⟩ := hblock.sendsWhile_append
    rcases List.mem_cons.1 hgroup with rfl | hgroup
    · -- the block is of this queue, and later ones are not
      obtain ⟨hreads, hdeletes⟩ := hrest.untouched hnodup.1
      have halone : sendsFor queueUrl cs = sends := by
        have hself := hsends queueUrl false []
        rwa [List.append_nil, if_pos rfl, sendsWhile_nil, List.append_nil] at hself
      refine ⟨cs, hblock, List.subset_append_left .., ?_, ?_, ?_⟩
      · rw [deletesFrom_append, hdeletes, List.append_nil]
      · rw [policyReads_append, hreads, List.append_nil]
      · rw [halone, sendsFor, hsends, if_pos rfl, hrest.sendsWhile_eq_nil hnodup.1,
          List.append_nil]
    · have hmem : group.1 ∈ groups.map Prod.fst := List.mem_map_of_mem hgroup
      have hne : queueUrl ≠ group.1 := fun heq => hnodup.1 (heq ▸ hmem)
      obtain ⟨hreads, hdeletes⟩ := hblock.untouched hne
      obtain ⟨bs, hbs, hsub, hsame⟩ := ih hnodup.2 hgroup rfl
      refine ⟨bs, hbs, fun c hc => List.mem_append_right _ (hsub hc), ?_, ?_, ?_⟩
      · rw [deletesFrom_append, hdeletes, List.nil_append, hsame.deletes]
      · rw [policyReads_append, hreads, List.nil_append, hsame.reads]
      · rw [sendsFor, hsends, if_neg hne, decide_eq_false hne, List.nil_append]
        exact hsame.sends

/-- Deletes that are the same for a queue keep what follows them the same. -/
theorem SameFor.deletes_append {ds ds' : List Call} (h : SameFor u ds ds')
    (hdelete : ∀ c ∈ cs, c.request.isDelete) (hdelete' : ∀ c ∈ cs', c.request.isDelete)
    (heq : deletesFrom u cs = deletesFrom u cs') : SameFor u (cs ++ ds) (cs' ++ ds') where
  deletes := by rw [deletesFrom_append, deletesFrom_append, heq, h.deletes]
  reads := by
    rw [policyReads_append, policyReads_append, h.reads,
      policyReads_eq_nil fun c hc => .inr (hdelete c hc),
      policyReads_eq_nil fun c hc => .inr (hdelete' c hc)]
  sends := by
    rw [sendsFor, sendsFor, sendsWhile_deletes_append hdelete, sendsWhile_deletes_append hdelete']
    exact h.sends

/-- Blocks for the queues of all failures call for one queue what a block for that queue alone does,
if both have the same messages of it. -/
theorem Redriven.same_of_single {single : QueueGroups} (h : Redriven size groups cs none)
    (h' : Redriven size single cs' stop') (hnodup : (groups.map Prod.fst).Nodup)
    (hnodup' : (single.map Prod.fst).Nodup) (hu : ∀ group ∈ single, group.1 = u)
    (hget : single.get u = groups.get u) (hne : ∀ group ∈ groups, group.2 ≠ [])
    (hne' : ∀ group ∈ single, group.2 ≠ []) (hs : Served serve cs) (hs' : Served serve cs') :
    stop' = none ∧ SameFor u cs' cs := by
  obtain rfl | heq := QueueGroups.eq_of_single hnodup' hu
  · cases h'
    -- then the queue has no block among the others either
    have hnone : u ∉ groups.map Prod.fst := by
      intro hmem
      obtain ⟨group, hgroup, rfl⟩ := List.mem_map.1 hmem
      rw [QueueGroups.get_of_mem hnodup hgroup] at hget
      exact hne group hgroup hget.symm
    obtain ⟨hreads, hdeletes⟩ := h.untouched hnone
    exact ⟨rfl, hdeletes.symm, hreads.symm, (h.sendsWhile_eq_nil hnone).symm⟩
  · have hmem : u ∈ groups.map Prod.fst := by
      by_contra hnone
      have hgroup : (u, single.get u) ∈ single := by
        rw [heq]
        simp [QueueGroups.get_cons]
      refine hne' _ hgroup ?_
      rw [hget, QueueGroups.get_eq_nil hnone]
    obtain ⟨group, hgroup, rfl⟩ := List.mem_map.1 hmem
    obtain ⟨bs, hblock, hsub, hsame⟩ := h.exists_block hnodup hgroup
    rw [heq, hget, QueueGroups.get_of_mem hnodup hgroup] at h'
    have hserved := hs.mono hsub
    cases h' with
    | halted hblock' => cases (hblock.unique_of_served hblock' hserved hs').2
    | next hblock' hrest =>
      rw [served_append] at hs'
      obtain ⟨rfl, -⟩ := hblock.unique_of_served hblock' hserved hs'.1
      cases hrest
      rw [List.append_nil]
      exact ⟨rfl, hsame.deletes.symm, hsame.reads.symm, hsame.sends.symm⟩

/-! ## The whole reconciliation -/

section Reconciliation

variable {settings : Settings} {triage : Triage} {succeeded : List Message}
  {failed : List (Message × Error)}

/-- What is not retryable of a queue are its failures that are not. -/
theorem finals_filter : finals triage (failed.filter fun f => f.1.isFrom u) =
    (finals triage failed).filter (Message.isFrom u) := by
  unfold finals
  rw [List.filter_map, List.filter_filter, List.filter_filter]
  congr 1
  exact List.filter_congr fun f _ => Bool.and_comm ..

theorem deletesFrom_deletesFrom (cs : List Call) :
    deletesFrom u (deletesFrom u cs) = deletesFrom u cs := by simp [deletesFrom]

/-- Deleting all failures with the successes is the same for a queue alone. -/
theorem same_of_deleting {final : List Message} {others groups' others' : QueueGroups}
    {lists lists' : List (List Value)} (hgroups : groups.Sorts succeeded)
    (hothers : others.Sorts final)
    (hgroups' : groups'.Sorts (succeeded.filter (Message.isFrom u)))
    (hothers' : others'.Sorts (final.filter (Message.isFrom u)))
    (hissued : Issued QueueClient.failedEntries (groupsPlan size (groups.joined others)) cs lists
      none)
    (hissued' : Issued QueueClient.failedEntries (groupsPlan size (groups'.joined others')) cs'
      lists' stop')
    (hs : Served serve cs) (hs' : Served serve cs') : stop' = none ∧ SameFor u cs' cs := by
  have hu : ∀ group ∈ groups'.joined others', group.1 = u := by
    intro group hgroup
    rcases List.mem_append.1 hgroup with hgroup | hgroup
    · obtain ⟨g, hg, rfl⟩ := List.mem_map.1 hgroup
      exact hgroups'.single g hg
    · exact hothers'.single group (List.mem_filter.1 hgroup).1
  have hget : (groups'.joined others').get u = (groups.joined others).get u := by
    rw [QueueGroups.get_joined hgroups'.nodup hothers'.nodup,
      QueueGroups.get_joined hgroups.nodup hothers.nodup, hgroups'.get_eq_of_filter hgroups,
      hothers'.get_eq_of_filter hothers]
  obtain ⟨rfl, rfl⟩ := deletes_of_single hissued hissued'
    (QueueGroups.nodup_joined hgroups.nodup hothers.nodup)
    (QueueGroups.nodup_joined hgroups'.nodup hothers'.nodup) hu hget hs hs'
  have hnone : SameFor u [] [] := ⟨rfl, rfl, rfl⟩
  have hsame := hnone.deletes_append (isDelete_of_groupsPlan hissued')
    (isDelete_of_groupsPlan hissued) (deletesFrom_deletesFrom cs)
  rw [List.append_nil, List.append_nil] at hsame
  exact ⟨rfl, hsame⟩

/-- Deleting the successes is the same for a queue alone. -/
theorem same_of_successes {groups' : QueueGroups} {lists lists' : List (List Value)}
    (hgroups : groups.Sorts succeeded)
    (hgroups' : groups'.Sorts (succeeded.filter (Message.isFrom u)))
    (hissued : Issued QueueClient.failedEntries (groupsPlan size groups) cs lists none)
    (hissued' : Issued QueueClient.failedEntries (groupsPlan size groups') cs' lists' stop')
    (hs : Served serve cs) (hs' : Served serve cs') : stop' = none ∧ cs' = deletesFrom u cs :=
  deletes_of_single hissued hissued' hgroups.nodup hgroups'.nodup hgroups'.single
    (hgroups'.get_eq_of_filter hgroups) hs hs'

/-- **A reconciliation calls for a queue what the reconciliation of its messages alone calls**, if
it ends well, and that ends well too. -/
theorem Reconciled.same_of_filter (h : Reconciled settings triage succeeded failed cs none)
    (h' : Reconciled settings triage (succeeded.filter (Message.isFrom u))
      (failed.filter fun f => f.1.isFrom u) cs' stop')
    (hverdicts : ∀ f ∈ failed, ∃ final, triage.isNonRetryable f.2 = .ok final)
    (hs : Served serve cs) (hs' : Served serve cs') : stop' = none ∧ SameFor u cs' cs := by
  have hlocated {ms : List Message} {e : Error}
      (herror : QueueGroups.ofMessages (ms.filter (Message.isFrom u)) = .error e) : False := by
    obtain ⟨m, hm, hurl⟩ := QueueGroups.exists_of_ofMessages_error herror
    cases hurl.symm.trans (Message.isFrom_iff.1 (List.mem_filter.1 hm).2)
  cases h' with
  | undecided herror =>
    cases herror.symm.trans
      (nonRetryable_of_verdicts fun f hf => hverdicts f (List.mem_of_mem_filter hf))
  | unlocated herror =>
    rw [finals_filter] at herror
    exact (herror.elim hlocated hlocated).elim
  | deleting hflag' hgroups' hothers' hissued' =>
    rw [finals_filter] at hothers'
    cases h with
    | redriving hflag => cases hflag'.symm.trans hflag
    | deleting _ hgroups hothers hissued =>
      exact same_of_deleting hgroups hothers hgroups' hothers' hissued hissued' hs hs'
  | halted hflag' hgroups' _ hissued' =>
    cases h with
    | deleting hflag => cases hflag'.symm.trans hflag
    | redriving _ hgroups _ hissued _ =>
      rw [served_append] at hs
      cases (same_of_successes hgroups hgroups' hissued hissued' hs.1 hs').1
  | redriving hflag' hgroups' hothers' hissued' hredriven' =>
    rw [finals_filter] at hothers'
    cases h with
    | deleting hflag => cases hflag'.symm.trans hflag
    | redriving _ hgroups hothers hissued hredriven =>
      rw [served_append] at hs hs'
      obtain ⟨-, rfl⟩ := same_of_successes hgroups hgroups' hissued hissued' hs.1 hs'.1
      obtain ⟨rfl, hsame⟩ := hredriven.same_of_single hredriven' hothers.nodup hothers'.nodup
        hothers'.single (hothers'.get_eq_of_filter hothers) hothers.ne_nil hothers'.ne_nil hs.2
        hs'.2
      exact ⟨rfl, hsame.deletes_append (isDelete_of_groupsPlan hissued')
        (isDelete_of_groupsPlan hissued) (deletesFrom_deletesFrom _)⟩

end Reconciliation
end Batch

/-! ## Courses of a batch -/

namespace Batch

variable {callee : Callee} {hooks : Hooks} {ms : List Message} {outcomes : List (Message × Outcome)}
  {t : List Event}

/-- Some of the messages of a batch can have their outcomes without the others. -/
theorem exists_handleAll_filter (q : Message → Bool)
    (h : (handleAll callee hooks ms).Ends t (.ok outcomes)) :
    ∃ t', (handleAll callee hooks (ms.filter q)).Ends t'
      (.ok (outcomes.filter fun o => q o.1)) := by
  induction ms generalizing t outcomes with
  | nil =>
    obtain ⟨rfl, heq⟩ := Run.ends_pure.1 h
    obtain rfl := Except.ok.inj heq
    exact ⟨[], rfl, rfl⟩
  | cons m ms ih =>
    unfold handleAll at h
    obtain ⟨e, -, heq⟩ | ⟨t₁, o, t₂, hm, hrest, rfl⟩ := Run.ends_bind.1 h
    · cases heq
    obtain ⟨e, -, heq⟩ | ⟨t₃, others, t₄, hothers, hpure, rfl⟩ := Run.ends_bind.1 hrest
    · cases heq
    obtain ⟨rfl, heq⟩ := Run.ends_pure.1 hpure
    obtain rfl := Except.ok.inj heq
    obtain ⟨t', ht'⟩ := ih hothers
    cases hq : q m with
    | false =>
      rw [List.filter_cons_of_neg (by simp [hq]), List.filter_cons_of_neg (by simp [hq])]
      exact ⟨t', ht'⟩
    | true =>
      rw [List.filter_cons_of_pos (by simp [hq]), List.filter_cons_of_pos (by simp [hq])]
      refine ⟨t₁ ++ (t' ++ []), Run.ends_bind.2 (.inr ⟨t₁, o, _, hm, ?_, rfl⟩)⟩
      exact Run.ends_bind.2 (.inr ⟨t', _, [], ht', Run.ends_pure.2 ⟨rfl, rfl⟩, rfl⟩)

/-- What succeeded of some messages. -/
theorem successes_filter (q : Message → Bool) :
    successes (outcomes.filter fun o => q o.1) = (successes outcomes).filter fun s => q s.1 := by
  unfold successes
  rw [List.filterMap_filter, List.filter_filterMap]
  refine List.filterMap_congr fun o _ => ?_
  obtain ⟨m, o⟩ := o
  cases o <;> cases hq : q m <;> simp [Option.filter, hq]

/-- What failed of some messages. -/
theorem failures_filter (q : Message → Bool) :
    failures (outcomes.filter fun o => q o.1) = (failures outcomes).filter fun f => q f.1 := by
  unfold failures
  rw [List.filterMap_filter, List.filter_filterMap]
  refine List.filterMap_congr fun o _ => ?_
  obtain ⟨m, o⟩ := o
  cases o <;> cases hq : q m <;> simp [Option.filter, hq]

end Batch

namespace Processor

variable {p : Processor} {ms : List Message} {handler handler' : Handler} {rule : Message → Outcome}
  {serve : Request → Value} {outcomes : List (Message × Outcome)} {handled rest : List Event}
  {x : Except Error (List Value)} {u : Text}

/-- Whether a batch has its outcomes by a rule, and goes on with answers by a rule. -/
structure GivenBy (p : Processor) (rule : Message → Outcome) (serve : Request → Value)
    (ms : List Message) (handler : Handler) (outcomes : List (Message × Outcome))
    (rest : List Event) (x : Except Error (List Value)) : Prop where
  /-- The batch has a course in which every message gets its outcome, and this is the rest of it. -/
  course : ∃ handled, (p.handling ms handler).Ends handled (.ok outcomes) ∧
    (p.process ms handler).Ends (handled ++ rest) x
  /-- The outcome of a message depends on the message only. -/
  ruled : ∀ o ∈ outcomes, o.2 = rule o.1
  /-- No call fails, and its answer depends on the request only. -/
  served : Served serve (calls rest)

theorem GivenBy.conclude (h : p.GivenBy rule serve ms handler outcomes rest x) :
    (p.conclude outcomes).Ends rest x := by
  obtain ⟨handled, hhandling, hprocess⟩ := h.course
  exact (ends_process_append hhandling).1 hprocess

/-- A rule gives a batch its outcomes. -/
theorem GivenBy.outcomes_eq (h : p.GivenBy rule serve ms handler outcomes rest x) :
    outcomes = ms.map fun m => (m, rule m) := by
  obtain ⟨handled, hhandling, -⟩ := h.course
  rw [← messages_of_handling hhandling, List.map_map]
  have hself (o) (ho : o ∈ outcomes) : ((fun m => (m, rule m)) ∘ Prod.fst) o = id o := by
    obtain ⟨m, o⟩ := o
    exact congrArg (Prod.mk m) (h.ruled _ ho).symm
  rw [List.map_congr_left hself, List.map_id]

/-- The outcomes for the messages of a queue are those that they have among all. -/
theorem GivenBy.outcomes_filter {rest' : List Event} {outcomes' : List (Message × Outcome)}
    {x' : Except Error (List Value)} (h : p.GivenBy rule serve ms handler outcomes rest x)
    (h' : p.GivenBy rule serve (ms.filter (Message.isFrom u)) handler' outcomes' rest' x') :
    outcomes' = outcomes.filter fun o => o.1.isFrom u := by
  rw [h.outcomes_eq, h'.outcomes_eq, List.filter_map]
  rfl

/-- If a batch ends as it is due, every failure had a verdict. -/
theorem exists_verdict_of_due (h : (p.conclude outcomes).Ends rest (p.due outcomes)) :
    ∀ f ∈ Batch.failures outcomes, ∃ final, p.triage.isNonRetryable f.2 = .ok final := by
  rintro ⟨m, e⟩ hf
  cases hverdict : p.triage.isNonRetryable e with
  | ok final => exact ⟨final, rfl⟩
  | error f =>
    obtain ⟨-, hdue⟩ := ends_of_no_verdict (Batch.mem_failures.1 hf) hverdict h
    unfold due at hdue
    split at hdue
    · cases hdue
    · cases hdue

/-- If a batch ends as it is due, its reconciliation ended well and its errors can be shown, unless
the queue service raised a report. -/
theorem reconciled_of_due (h : (p.conclude outcomes).Ends rest (p.due outcomes))
    (hserved : Served serve (calls rest)) (hfailures : Batch.failures outcomes ≠ []) :
    Batch.Reconciled p.settings p.triage ((Batch.successes outcomes).map Prod.fst)
        (Batch.failures outcomes) (calls rest) none ∧
      ∀ f ∈ Batch.failures outcomes, f.2.IsShowable := by
  obtain ⟨stop, hreconciled, hdue⟩ := reconciled_of_failures h hfailures
  cases stop with
  | none => exact ⟨hreconciled, Error.exists_lines_iff.1 (exists_lines_of_ending hdue.symm)⟩
  | some e =>
    have hreport : e.isReport = true := by
      unfold due at hdue
      split at hdue
      · cases hdue
      · obtain rfl := Except.error.inj hdue
        rfl
    obtain ⟨c, hc, hraised⟩ := hreconciled.report_raised hreport
    cases hraised.symm.trans (hserved c hc)

/-- **Queues do not interfere.** If outcomes and answers are given by rules and the batch ends as it
is due, then the messages of a queue with a failure make a batch of their own that can be given by the
same rules; and however that is handled, it ends as it is due, and its calls for the queue are those
of the whole batch. -/
theorem queues_independent (h : p.GivenBy rule serve ms handler outcomes rest (p.due outcomes))
    (hu : ∃ f ∈ Batch.failures outcomes, f.1.queueUrl = .ok u) :
    (∃ outcomes' rest' x',
      p.GivenBy rule serve (ms.filter (Message.isFrom u)) handler outcomes' rest' x') ∧
    ∀ handler' outcomes' rest' x',
      p.GivenBy rule serve (ms.filter (Message.isFrom u)) handler' outcomes' rest' x' →
      x' = p.due outcomes' ∧ Batch.SameFor u (calls rest') (calls rest) := by
  obtain ⟨f, hf, hfrom⟩ := hu
  constructor
  · obtain ⟨handled, hhandling, hprocess⟩ := h.course
    obtain ⟨resolving, callee, t, hresolve, hall, rfl⟩ :
        ∃ resolving callee t, handler.resolve.Ends resolving (.ok callee) ∧
          (Batch.handleAll callee p.hooks ms).Ends t (.ok outcomes) ∧ handled = resolving ++ t := by
      obtain ⟨e, -, heq⟩ | ⟨t₁, callee, t₂, h₁, h₂, rfl⟩ := Run.ends_bind.1 hhandling
      · cases heq
      · exact ⟨t₁, callee, t₂, h₁, h₂, rfl⟩
    obtain ⟨t', hpart⟩ := Batch.exists_handleAll_filter (Message.isFrom u) hall
    have hhandling' : (p.handling (ms.filter (Message.isFrom u)) handler).Ends (resolving ++ t')
        (.ok (outcomes.filter fun o => o.1.isFrom u)) :=
      Run.ends_bind.2 (.inr ⟨resolving, callee, t', hresolve, hpart, rfl⟩)
    have hconclude := Run.ends_exec (.service fun r => .ok (serve r))
      (p.conclude (outcomes.filter fun o => o.1.isFrom u)) ()
    exact ⟨_, _, _, ⟨_, hhandling', (ends_process_append hhandling').2 hconclude⟩,
      fun o ho => h.ruled o (List.mem_filter.1 ho).1, calls_exec_service _⟩
  · intro handler' outcomes' rest' x' h'
    obtain rfl := h.outcomes_filter h'
    have hfailures : Batch.failures outcomes ≠ [] := List.ne_nil_of_mem hf
    have hfailures' : Batch.failures (outcomes.filter fun o => o.1.isFrom u) ≠ [] := by
      rw [Batch.failures_filter]
      exact List.ne_nil_of_mem (List.mem_filter.2 ⟨hf, Message.isFrom_iff.2 hfrom⟩)
    obtain ⟨hreconciled, hshown⟩ := reconciled_of_due h.conclude h.served hfailures
    obtain ⟨stop, hreconciled', rfl⟩ := reconciled_of_failures h'.conclude hfailures'
    have hmessages : (Batch.successes (outcomes.filter fun o => o.1.isFrom u)).map Prod.fst =
        ((Batch.successes outcomes).map Prod.fst).filter (Message.isFrom u) := by
      rw [Batch.successes_filter, List.filter_map]
      rfl
    rw [hmessages, Batch.failures_filter] at hreconciled'
    obtain ⟨rfl, hsame⟩ := hreconciled.same_of_filter hreconciled'
      (exists_verdict_of_due h.conclude) h.served h'.served
    obtain ⟨lines, hlines⟩ : ∃ lines, Error.lines
        (Batch.failures (outcomes.filter fun o => o.1.isFrom u)) = .ok lines := by
      rw [Error.exists_lines_iff, Batch.failures_filter]
      exact fun f hf => hshown f (List.mem_filter.1 hf).1
    exact ⟨ending_of_lines hlines, hsame⟩

end Processor

namespace Sample

/-- Messages of two queues. -/
def mixed : List Message := [bill "d" "[]", order "a" "\x7b\x7d", bill "e" "\x7b\x7d", order "b" "[]"]

/-- Their outcomes. -/
def mixedOutcomes : List (Message × Outcome) := mixed.map fun m => (m, rule m)

/-- The answers of `service`. -/
def serve (r : Request) : Value := (service r).toOption.getD .null

/-- What is concluded of the outcomes with these answers. -/
def concludingMixed : List Event :=
  ((processor.conclude mixedOutcomes).exec (.service fun r => .ok (serve r)) ()).1

end Sample

namespace Processor

/-- The successes of two queues are deleted, and the failures of both are moved; what is called for
`orders` is what is called in the batch of `a` and `b`. -/
theorem queues_independent_sample :
    Sample.processor.GivenBy Sample.rule Sample.serve Sample.mixed Consumer.handler
        Sample.mixedOutcomes Sample.concludingMixed (Sample.processor.due Sample.mixedOutcomes) ∧
      (∃ f ∈ Batch.failures Sample.mixedOutcomes, f.1.queueUrl = .ok Sample.ordersUrl) ∧
      (deletesFrom Sample.ordersUrl (calls Sample.concludingMixed)).length = 2 ∧
      (∃ outcomes' rest' x', Sample.processor.GivenBy Sample.rule Sample.serve
        (Sample.mixed.filter (Message.isFrom Sample.ordersUrl)) Consumer.handler outcomes' rest'
        x') ∧
      ∀ handler' outcomes' rest' x',
        Sample.processor.GivenBy Sample.rule Sample.serve
          (Sample.mixed.filter (Message.isFrom Sample.ordersUrl)) handler' outcomes' rest' x' →
        x' = Sample.processor.due outcomes' ∧
          Batch.SameFor Sample.ordersUrl (calls rest') (calls Sample.concludingMixed) := by
  have hhandling := Run.ends_exec (.service Sample.service)
    (Sample.processor.handling Sample.mixed Consumer.handler) ()
  have houtcomes : ((Sample.processor.handling Sample.mixed Consumer.handler).exec
      (.service Sample.service) ()).2.1 = .ok Sample.mixedOutcomes := by decide +kernel
  rw [houtcomes] at hhandling
  have hconclude := Run.ends_exec (.service fun r => .ok (Sample.serve r))
    (Sample.processor.conclude Sample.mixedOutcomes) ()
  have hend : ((Sample.processor.conclude Sample.mixedOutcomes).exec
      (.service fun r => .ok (Sample.serve r)) ()).2.1 =
        Sample.processor.due Sample.mixedOutcomes := by decide +kernel
  rw [hend] at hconclude
  have h : Sample.processor.GivenBy Sample.rule Sample.serve Sample.mixed Consumer.handler
      Sample.mixedOutcomes Sample.concludingMixed (Sample.processor.due Sample.mixedOutcomes) :=
    ⟨⟨_, hhandling, (ends_process_append hhandling).2 hconclude⟩, by decide +kernel,
      calls_exec_service _⟩
  have hu : ∃ f ∈ Batch.failures Sample.mixedOutcomes, f.1.queueUrl = .ok Sample.ordersUrl := by
    decide +kernel
  exact ⟨h, hu, by decide +kernel, queues_independent h hu⟩

end Processor
end PartialBatch
