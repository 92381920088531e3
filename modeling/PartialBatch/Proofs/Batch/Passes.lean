/-
# The passes of a cleanup

A cleanup goes in passes. Each deletes, or sends, messages of one queue, and is cut into requests;
before it sends, the redrive policy of the queue is read.

| pass | over which messages of its queue |
| --- | --- |
| `clear` | those to delete as they are: the successes, and the failures if they are to be deleted |
| `send` | the failures, if they are to be moved |
| `release` | those of these that no answer to a send lists as failed |

The failures are those that are not retryable.  Each of these passes is made once at most, and never
over no message (`Due`).  If the chunks are not too long, only the queue service and what it answers
ends a pass before its last request, and then nothing follows it. So all passes are whole but the
last, and that too if the cleanup ends without an error (`Reconciled.passes`).
-/

import PartialBatch.Proofs.Batch.Raised
import PartialBatch.Proofs.Queue.Cut

namespace PartialBatch
namespace Batch

/-! ## Passes -/

/-- What a pass is for. -/
inductive Purpose
  /-- Messages are deleted as they are. -/
  | clear
  /-- Failures are sent to the dead-letter queue of their queue. -/
  | send
  /-- Failures are deleted that were sent there. -/
  | release
  deriving DecidableEq, Repr

/-- A pass over messages of one queue, with the calls that it made. -/
structure Pass where
  purpose : Purpose
  queueUrl : Text
  messages : List Message
  calls : List Call

namespace Pass

/-- Whether a request is all of a pass in one. -/
inductive Asks : Pass → Request → Prop
  | deleting {s : Pass} (h : s.purpose ≠ .send) :
      Asks s (.delete (.text s.queueUrl) (.list (s.messages.map Message.deleteEntry)))
  | sending {s : Pass} {deadLetterUrl : Text} {entries : List Value} (h : s.purpose = .send)
      (hentries : Message.sendEntries s.messages = .ok entries) :
      Asks s (.send (.text deadLetterUrl) (.list entries))

/-- Whether a pass with at most `n` entries in a request was made as far as it goes. -/
def IsBegun (n : Nat) (s : Pass) : Prop :=
  ∃ r, s.Asks r ∧ s.calls.map Call.request <+: r.cut n

/-- Whether all of a pass with at most `n` entries in a request was made. -/
def IsWhole (n : Nat) (s : Pass) : Prop := ∃ r, s.Asks r ∧ s.calls.map Call.request = r.cut n

/-- Where a pass belongs. No two passes of a cleanup share it. -/
def key (s : Pass) : Purpose × Text := (s.purpose, s.queueUrl)

end Pass

variable {n : Nat} {s : Pass} {ss ss' : List Pass} {ms : List Message} {r : Request}
  {stop : Option Error} {size : Size} {u : Text} {cs ds : List Call} {groups : QueueGroups}

/-- Whether calls are those of passes, one after another, and between them of reading redrive
policies. Only an error cuts the last pass short. -/
inductive Passes (n : Nat) : List Pass → List Call → Option Error → Prop
  | done : Passes n [] [] none
  | stopped {e : Error} : Passes n [] [] (some e)
  | short {s : Pass} {e : Error} (h : s.IsBegun n) : Passes n [s] s.calls (some e)
  | read {u : Text} {answer : Except Error Value} {ss : List Pass} {cs : List Call}
      {stop : Option Error} (rest : Passes n ss cs stop) :
      Passes n ss (⟨QueueClient.policyRequest u, answer⟩ :: cs) stop
  | whole {s : Pass} {ss : List Pass} {cs : List Call} {stop : Option Error} (h : s.IsWhole n)
      (rest : Passes n ss cs stop) : Passes n (s :: ss) (s.calls ++ cs) stop

namespace Passes

/-- What follows passes that are done goes on with them. -/
theorem append (h : Passes n ss cs none) (h' : Passes n ss' ds stop) :
    Passes n (ss ++ ss') (cs ++ ds) stop := by
  generalize hs : (none : Option Error) = s at h
  induction h with
  | done => exact h'
  | stopped | short => cases hs
  | read _ ih => exact .read (ih hs)
  | whole hs' _ ih =>
    rw [List.append_assoc]
    exact .whole hs' (ih hs)

/-- Following the plan of a pass makes that pass. -/
theorem of_issued {β : Type} {read : Value → Except Error β} {bs : List β} {purpose : Purpose}
    (h : Issued read ((r.cut n).map .ok) cs bs stop)
    (hasks : Pass.Asks ⟨purpose, u, ms, cs⟩ r) : Passes n [⟨purpose, u, ms, cs⟩] cs stop := by
  cases stop with
  | none =>
    have hwhole : Pass.IsWhole n ⟨purpose, u, ms, cs⟩ := ⟨r, hasks, h.requests_eq_of_plan⟩
    have hdone : Passes n [⟨purpose, u, ms, cs⟩] (cs ++ []) none := .whole hwhole .done
    rwa [List.append_nil] at hdone
  | some e =>
    have hprefix : ((cs.map Call.request).map Except.ok : Plan) <+: (r.cut n).map Except.ok := by
      rw [List.map_map]
      exact h.requests_prefix
    have hinj : Function.Injective (Except.ok : Request → Except Error Request) :=
      fun _ _ => Except.ok.inj
    exact .short ⟨r, hasks, (List.prefix_map_iff_of_injective hinj).1 hprefix⟩

end Passes

/-! ## The passes that are due -/

/-- The messages of a queue that a pass is for, given all calls. -/
def duty (settings : Settings) (succeeded final : List Message) (cs : List Call) :
    Purpose → Text → List Message
  | .clear, u =>
    (if settings.deleteNonRetryable.truthy then succeeded ++ final else succeeded).filter
      (Message.isFrom u)
  | .send, u =>
    if settings.deleteNonRetryable.truthy then [] else final.filter (Message.isFrom u)
  | .release, u =>
    if settings.deleteNonRetryable.truthy then []
    else unlisted (sendsFor u cs) (final.filter (Message.isFrom u))

/-- Whether passes are among those that are due. -/
structure Due (settings : Settings) (succeeded final : List Message) (cs : List Call)
    (ss : List Pass) : Prop where
  /-- Each is over all messages of its queue that it is for, and there are some. -/
  exact : ∀ s ∈ ss, s.messages ≠ [] ∧
    s.messages = duty settings succeeded final cs s.purpose s.queueUrl
  /-- No two are for the same. -/
  once : (ss.map Pass.key).Nodup

theorem due_nil {settings : Settings} {succeeded final : List Message} :
    Due settings succeeded final cs [] := ⟨List.forall_mem_nil _, .nil⟩

/-- The pass that deletes messages from a queue, if there are any. -/
def deletePass (queueUrl : Text) (ms : List Message) : List Request :=
  if ms.isEmpty then [] else [.delete (.text queueUrl) (.list (ms.map Message.deleteEntry))]

/-- The passes that delete the messages of groups. -/
def groupPasses (groups : QueueGroups) : List Request :=
  groups.flatMap fun group => deletePass group.1 group.2

/-- The error that a result is. -/
def stopOf {α : Type} : Except Error α → Option Error
  | .ok _ => none
  | .error e => some e

section Whole

variable (hstride : size.stride = .ok n) (hpos : 0 < n) (hn : n ≤ maxEntries)

include hstride hpos hn

theorem deletePlan_eq (u : Text) (ms : List Message) :
    deletePlan size u ms = ((deletePass u ms).flatMap (Request.cut n)).map .ok := by
  unfold deletePlan deletePass
  split
  · rfl
  · rw [chunkPlan_eq hstride hpos hn, List.flatMap_singleton]
    rfl

theorem groupsPlan_eq (groups : QueueGroups) :
    groupsPlan size groups = ((groupPasses groups).flatMap (Request.cut n)).map .ok := by
  unfold groupsPlan groupPasses
  rw [List.flatMap_assoc, List.map_flatMap]
  simp only [deletePlan_eq hstride hpos hn]

/-- Following the plan for a queue is one pass, or none if there are no messages. -/
theorem passes_of_deletePlan {lists : List (List Value)} {purpose : Purpose}
    (hpurpose : purpose ≠ .send)
    (h : Issued QueueClient.failedEntries (deletePlan size u ms) cs lists stop) :
    ∃ ss, Passes n ss cs stop ∧ (ss = [] ∨ ms ≠ [] ∧ ss = [⟨purpose, u, ms, cs⟩]) := by
  rw [deletePlan_eq hstride hpos hn] at h
  unfold deletePass at h
  split at h
  · cases h
    exact ⟨[], .done, .inl rfl⟩
  · rename_i hempty
    rw [List.flatMap_singleton] at h
    exact ⟨_, .of_issued h (.deleting hpurpose),
      .inr ⟨fun hnil => hempty (List.isEmpty_iff.2 hnil), rfl⟩⟩

/-- **Deleting the messages of groups goes in passes**, over groups in their order. -/
theorem passes_of_groupsPlan {lists : List (List Value)}
    (h : Issued QueueClient.failedEntries (groupsPlan size groups) cs lists stop) :
    ∃ ss, Passes n ss cs stop ∧ (∀ s ∈ ss, s.purpose = .clear ∧ s.messages ≠ []) ∧
      (ss.map fun s => (s.queueUrl, s.messages)).Sublist groups := by
  induction groups generalizing cs lists with
  | nil =>
    cases h
    exact ⟨[], .done, List.forall_mem_nil _, .slnil⟩
  | cons group groups ih =>
    obtain ⟨e, rfl, hfirst⟩ | ⟨cs₁, lists₁, cs₂, lists₂, rfl, hfirst, hrest⟩ :=
      Issued.append_cases h
    · obtain ⟨_, hpass, rfl | ⟨hne, rfl⟩⟩ :=
        passes_of_deletePlan hstride hpos hn (nofun : Purpose.clear ≠ .send) hfirst
      · exact ⟨[], hpass, List.forall_mem_nil _, List.nil_sublist _⟩
      · exact ⟨_, hpass, List.forall_mem_singleton.2 ⟨rfl, hne⟩, (List.nil_sublist _).cons_cons _⟩
    · obtain ⟨ss, hpasses, hss, hsub⟩ := ih hrest
      obtain ⟨_, hpass, rfl | ⟨hne, rfl⟩⟩ :=
        passes_of_deletePlan hstride hpos hn (nofun : Purpose.clear ≠ .send) hfirst
      · exact ⟨ss, hpass.append hpasses, hss, hsub.cons _⟩
      · exact ⟨_ :: ss, hpass.append hpasses, List.forall_mem_cons.2 ⟨⟨rfl, hne⟩, hss⟩,
          hsub.cons_cons _⟩

/-- Such passes are those that are due, if the groups are those of all that is to be deleted. -/
theorem due_of_groupsPlan {settings : Settings} {succeeded final : List Message}
    {lists : List (List Value)}
    (h : Issued QueueClient.failedEntries (groupsPlan size groups) cs lists stop)
    (hnodup : (groups.map Prod.fst).Nodup)
    (hgroups : ∀ group ∈ groups, group.2 = duty settings succeeded final ds .clear group.1) :
    ∃ ss, Passes n ss cs stop ∧ Due settings succeeded final ds ss ∧
      ∀ s ∈ ss, s.purpose = .clear := by
  obtain ⟨ss, hpasses, hss, hsub⟩ := passes_of_groupsPlan hstride hpos hn h
  refine ⟨ss, hpasses, ⟨fun s hs => ⟨(hss s hs).2, ?_⟩, ?_⟩, fun s hs => (hss s hs).1⟩
  · have hmem : (s.queueUrl, s.messages) ∈ groups :=
      hsub.subset (List.mem_map_of_mem (f := fun s => (s.queueUrl, s.messages)) hs)
    rw [(hss s hs).1]
    exact hgroups _ hmem
  · have hurls : (ss.map fun s => s.queueUrl).Nodup := by
      have hkeys := (hsub.map Prod.fst).nodup hnodup
      rwa [List.map_map] at hkeys
    exact List.Nodup.of_map Prod.snd (by rwa [List.map_map])

/-- Moving messages of a queue is a reading and, as far as it gets, a pass that sends. -/
theorem Moving.passes {x : Except Error (List Message)} (h : Moving size u ms cs x) :
    ∃ answer sends ss, cs = ⟨QueueClient.policyRequest u, answer⟩ :: sends ∧
      (∀ c ∈ sends, c.request.isSend) ∧ Passes n ss cs (stopOf x) ∧
      (ss = [] ∨ ss = [⟨.send, u, ms, sends⟩]) ∧
      ∀ moved, x = .ok moved → moved = [] ∨ moved = unlisted sends ms := by
  have hsends {deadLetterUrl : Text} {entries : List Value} {cs : List Call}
      {idss : List (List Value)} {stop : Option Error}
      (hentries : Message.sendEntries ms = .ok entries)
      (hissued : Issued failedIds (chunkPlan (.send (.text deadLetterUrl)) entries size) cs idss
        stop) : Passes n [⟨.send, u, ms, cs⟩] cs stop ∧ ∀ c ∈ cs, c.request.isSend := by
    have hto (c : Call) (hc : c ∈ cs) : ∃ es, c.request = .send (.text deadLetterUrl) (.list es) :=
      have ⟨es, hr, _⟩ := exists_of_mem_chunkPlan (hissued.request_mem hc)
      ⟨es, hr⟩
    rw [chunkPlan_eq hstride hpos hn] at hissued
    exact ⟨.of_issued (r := .send (.text deadLetterUrl) (.list entries)) hissued
      (.sending rfl hentries), isSend_of_to hto⟩
  cases h with
  | unread | unusable | unsendable =>
    exact ⟨_, [], [], rfl, List.forall_mem_nil _, .read .stopped, .inl rfl, nofun⟩
  | absent =>
    exact ⟨_, [], [], rfl, List.forall_mem_nil _, .read .done, .inl rfl,
      fun moved h => .inl (Except.ok.inj h).symm⟩
  | unsent _ _ hentries hissued =>
    obtain ⟨hpass, hsend⟩ := hsends hentries hissued
    exact ⟨_, _, _, rfl, hsend, .read hpass, .inr rfl, nofun⟩
  | sent _ _ hentries hissued =>
    obtain ⟨hpass, hsend⟩ := hsends hentries hissued
    exact ⟨_, _, _, rfl, hsend, .read hpass, .inr rfl, fun moved h => .inr (Except.ok.inj h).symm⟩

/-- **The calls of a block are a reading, a pass that sends, and one that releases**, as far as they
go. -/
theorem Block.passes (h : Block size u ms cs stop) (hne : ms ≠ []) :
    ∃ answer sends deletes ss, cs = ⟨QueueClient.policyRequest u, answer⟩ :: (sends ++ deletes) ∧
      (∀ c ∈ sends, c.request.isSend) ∧ (∀ c ∈ deletes, c.request.isDelete) ∧
      Passes n ss cs stop ∧ (∀ s ∈ ss, s.queueUrl = u ∧ s.messages ≠ [] ∧
        (s.purpose = .send ∧ s.messages = ms ∨
          s.purpose = .release ∧ s.messages = unlisted sends ms)) ∧ (ss.map Pass.key).Nodup := by
  cases h with
  | unmoved hmove =>
    obtain ⟨answer, sends, ss, rfl, hsend, hpasses, hss, -⟩ := hmove.passes hstride hpos hn
    refine ⟨answer, sends, [], ss, by rw [List.append_nil], hsend, List.forall_mem_nil _, hpasses,
      ?_⟩
    obtain rfl | rfl := hss
    · exact ⟨List.forall_mem_nil _, .nil⟩
    · exact ⟨List.forall_mem_singleton.2 ⟨rfl, hne, .inl ⟨rfl, rfl⟩⟩, List.nodup_singleton _⟩
  | @moved moved _ deletes lists _ hmove hdelete =>
    obtain ⟨answer, sends, ss, rfl, hsend, hpasses, hss, hmoved⟩ := hmove.passes hstride hpos hn
    obtain ⟨ss', hpasses', hss'⟩ :=
      passes_of_deletePlan hstride hpos hn (nofun : Purpose.release ≠ .send) hdelete
    have hdeletes (c : Call) (hc : c ∈ deletes) : c.request.isDelete :=
      (deletesOf_of_deletePlan hdelete hc).isDelete
    refine ⟨answer, sends, deletes, ss ++ ss', rfl, hsend, hdeletes, hpasses.append hpasses', ?_⟩
    have hrelease (s : Pass) (hs : s ∈ ss') : s.queueUrl = u ∧ s.messages ≠ [] ∧
        (s.purpose = .send ∧ s.messages = ms ∨
          s.purpose = .release ∧ s.messages = unlisted sends ms) := by
      obtain rfl | ⟨hne, rfl⟩ := hss'
      · cases hs
      · obtain rfl := List.mem_singleton.1 hs
        exact ⟨rfl, hne, .inr ⟨rfl, (hmoved moved rfl).resolve_left hne⟩⟩
    obtain rfl | rfl := hss
    · refine ⟨hrelease, ?_⟩
      obtain rfl | ⟨-, rfl⟩ := hss'
      · exact .nil
      · exact List.nodup_singleton _
    · refine ⟨List.forall_mem_cons.2 ⟨⟨rfl, hne, .inl ⟨rfl, rfl⟩⟩, hrelease⟩, ?_⟩
      obtain rfl | ⟨-, rfl⟩ := hss'
      · exact List.nodup_singleton _
      · simp [Pass.key]

/-- **Moving the messages of groups goes in passes** over them. -/
theorem Redriven.passes (h : Redriven size groups cs stop) (hnodup : (groups.map Prod.fst).Nodup)
    (hne : ∀ group ∈ groups, group.2 ≠ []) :
    ∃ ss, Passes n ss cs stop ∧ (∀ s ∈ ss, s.messages ≠ [] ∧ ∃ group ∈ groups,
        s.queueUrl = group.1 ∧ (s.purpose = .send ∧ s.messages = group.2 ∨
          s.purpose = .release ∧ s.messages = unlisted (sendsFor group.1 cs) group.2)) ∧
      (ss.map Pass.key).Nodup := by
  induction h with
  | done => exact ⟨[], .done, List.forall_mem_nil _, .nil⟩
  | @halted queueUrl ms groups cs e hblock =>
    obtain ⟨answer, sends, deletes, ss, rfl, hsend, hdelete, hpasses, hss, honce⟩ :=
      hblock.passes hstride hpos hn (hne _ (List.mem_cons_self ..))
    refine ⟨ss, hpasses, fun s hs => ?_, honce⟩
    obtain ⟨hu, hmessages, hduty⟩ := hss s hs
    have hfor : sendsFor queueUrl (⟨QueueClient.policyRequest queueUrl, answer⟩ ::
        (sends ++ deletes)) = sends := by
      have hblock : sendsWhile queueUrl false (⟨QueueClient.policyRequest queueUrl, answer⟩ ::
          (sends ++ deletes) ++ []) = _ := sendsWhile_block hsend hdelete
      rwa [List.append_nil, if_pos rfl, sendsWhile_nil, List.append_nil] at hblock
    exact ⟨hmessages, _, List.mem_cons_self .., hu, hfor.symm ▸ hduty⟩
  | @next queueUrl ms groups cs ds stop hblock hrest ih =>
    rw [List.map_cons, List.nodup_cons] at hnodup
    obtain ⟨hfirst, hne⟩ := List.forall_mem_cons.1 hne
    obtain ⟨answer, sends, deletes, ss, rfl, hsend, hdelete, hpasses, hss, honce⟩ :=
      hblock.passes hstride hpos hn hfirst
    obtain ⟨ss', hpasses', hss', honce'⟩ := ih hnodup.2 hne
    refine ⟨ss ++ ss', hpasses.append hpasses', fun s hs => ?_, ?_⟩
    · rcases List.mem_append.1 hs with hs | hs
      · obtain ⟨hu, hmessages, hduty⟩ := hss s hs
        refine ⟨hmessages, _, List.mem_cons_self .., hu, ?_⟩
        rwa [sendsFor, sendsWhile_block hsend hdelete, if_pos rfl,
          hrest.sendsWhile_eq_nil hnodup.1, List.append_nil]
      · obtain ⟨hmessages, group, hgroup, hu, hduty⟩ := hss' s hs
        have hne : queueUrl ≠ group.1 := fun heq =>
          hnodup.1 (List.mem_map.2 ⟨group, hgroup, heq.symm⟩)
        refine ⟨hmessages, group, List.mem_cons_of_mem _ hgroup, hu, ?_⟩
        rwa [sendsFor, sendsWhile_block hsend hdelete, if_neg hne, decide_eq_false hne]
    · rw [List.map_append]
      refine honce.append honce' ?_
      rintro key hkey hkey'
      obtain ⟨s, hs, rfl⟩ := List.mem_map.1 hkey
      obtain ⟨s', hs', heq⟩ := List.mem_map.1 hkey'
      obtain ⟨-, group, hgroup, hu, -⟩ := hss' s' hs'
      have hurl : queueUrl = group.1 := by
        rw [← hu, ← (hss s hs).1]
        exact (congrArg Prod.snd heq).symm
      exact hnodup.1 (List.mem_map.2 ⟨group, hgroup, hurl.symm⟩)

end Whole

section Cleanup

variable {settings : Settings} {triage : Triage} {succeeded : List Message}
  {failed : List (Message × Error)}

/-- Groups that are joined hold all messages of each queue. -/
theorem joined_eq_duty {others : QueueGroups} {final : List Message}
    (hflag : settings.deleteNonRetryable.truthy = true) (hgroups : groups.Sorts succeeded)
    (hothers : others.Sorts final) :
    ∀ group ∈ groups.joined others, group.2 = duty settings succeeded final cs .clear group.1 := by
  intro group hgroup
  rw [duty, if_pos hflag, List.filter_append, ← hgroups.get_eq, ← hothers.get_eq,
    ← QueueGroups.get_joined hgroups.nodup hothers.nodup,
    QueueGroups.get_of_mem (QueueGroups.nodup_joined hgroups.nodup hothers.nodup) hgroup]

/-- **A cleanup goes in the passes that are due**, and only an error cuts one short. -/
theorem Reconciled.passes (h : Reconciled settings triage succeeded failed cs stop)
    (hstride : settings.maxBatchSize.stride = .ok n) (hpos : 0 < n) (hn : n ≤ maxEntries) :
    ∃ ss, Passes n ss cs stop ∧ Due settings succeeded (finals triage failed) cs ss := by
  have hcleared {groups : QueueGroups} (hflag : settings.deleteNonRetryable.truthy = false)
      (hgroups : groups.Sorts succeeded) (ds : List Call) : ∀ group ∈ groups, group.2 =
        duty settings succeeded (finals triage failed) ds .clear group.1 := by
    intro group hgroup
    rw [duty, if_neg (by simp [hflag]), hgroups.group_eq hgroup]
  cases h with
  | undecided | unlocated => exact ⟨[], .stopped, due_nil⟩
  | @deleting groups others _ _ _ hflag hgroups hothers hissued =>
    obtain ⟨ss, hpasses, hdue, -⟩ := due_of_groupsPlan hstride hpos hn hissued
      (QueueGroups.nodup_joined hgroups.nodup hothers.nodup) (joined_eq_duty hflag hgroups hothers)
    exact ⟨ss, hpasses, hdue⟩
  | halted hflag hgroups hothers hissued =>
    obtain ⟨ss, hpasses, hdue, -⟩ :=
      due_of_groupsPlan hstride hpos hn hissued hgroups.nodup (hcleared hflag hgroups cs)
    exact ⟨ss, hpasses, hdue⟩
  | @redriving groups others cs ds _ _ hflag hgroups hothers hissued hredriven =>
    obtain ⟨ss, hpasses, hdue, hclear⟩ :=
      due_of_groupsPlan hstride hpos hn hissued hgroups.nodup (hcleared hflag hgroups (cs ++ ds))
    obtain ⟨ss', hpasses', hss', honce'⟩ :=
      hredriven.passes hstride hpos hn hothers.nodup hothers.ne_nil
    have hsends (u : Text) : sendsFor u (cs ++ ds) = sendsFor u ds :=
      sendsWhile_deletes_append (isDelete_of_groupsPlan hissued)
    refine ⟨ss ++ ss', hpasses.append hpasses', List.forall_mem_append.2 ⟨hdue.exact, ?_⟩, ?_⟩
    · intro s hs
      obtain ⟨hne, group, hgroup, hu, ⟨hpurpose, hmessages⟩ | ⟨hpurpose, hmessages⟩⟩ := hss' s hs
      · rw [hpurpose, hmessages, hu, duty, if_neg (by simp [hflag])]
        exact ⟨hmessages ▸ hne, hothers.group_eq hgroup⟩
      · refine ⟨hne, ?_⟩
        rw [hpurpose, hmessages, hu, duty, if_neg (by simp [hflag]), hsends,
          hothers.group_eq hgroup]
    · rw [List.map_append]
      refine hdue.once.append honce' ?_
      rintro key hkey hkey'
      obtain ⟨s, hs, rfl⟩ := List.mem_map.1 hkey
      obtain ⟨s', hs', heq⟩ := List.mem_map.1 hkey'
      obtain ⟨-, group, -, -, hpurpose⟩ := hss' s' hs'
      have hsame : s'.purpose = .clear := (congrArg Prod.fst heq).trans (hclear s hs)
      rcases hpurpose with ⟨hpurpose, -⟩ | ⟨hpurpose, -⟩ <;> cases hsame.symm.trans hpurpose

end Cleanup

end Batch
end PartialBatch
