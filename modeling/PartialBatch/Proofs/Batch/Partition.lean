/-
# Groups part a batch

Each message is put behind those of its own queue, one after another.  What that comes to can be said
without going through the messages:

| asked | of the groups |
| --- | --- |
| one for each queue, in the order in which the queues first occur | `queues_ordered` |
| in each the messages of its queue, in their order | `Sorts.group_eq` |
| every message in one of them | `Sorts.existsUnique_mem` |
| the messages as often as in the batch | `perm_of_ofMessages` |

All messages can be grouped exactly if their sources are resource names of queues.  If not, the first
source that is none ends the grouping (`ofMessages_eq_error`), so a list of messages is parted like
that or refused for its first message from no queue (`grouping_stable`).
-/

import PartialBatch.Proofs.Queue.Addresses

namespace PartialBatch

open QueueAddress (IsArn)

namespace QueueGroups

variable {groups : QueueGroups} {ms : List Message} {m : Message}

/-- Whether groups part messages by their queues, and keep their order. -/
structure Parts (groups : QueueGroups) (ms : List Message) : Prop where
  /-- No queue has two groups. -/
  distinct : (groups.map Prod.fst).Nodup
  /-- The groups come in the order in which their queues first occur. -/
  ordered : groups.Pairwise fun g h =>
    ms.findIdx (Message.isFrom g.1) < ms.findIdx (Message.isFrom h.1)
  /-- Every group has a message. -/
  ne_nil : ∀ g ∈ groups, g.2 ≠ []
  /-- A group is the sublist of the messages of its queue. -/
  group_eq : ∀ g ∈ groups, g.2 = ms.filter (Message.isFrom g.1)
  /-- Every message is in one group, and in no other. -/
  once : ∀ m ∈ ms, ∃! g, g ∈ groups ∧ m ∈ g.2
  /-- The groups together hold every message as often as it occurs. -/
  perm : (groups.flatMap Prod.snd).Perm ms

/-- Every message is in exactly one group. -/
theorem Sorts.existsUnique_mem (h : Sorts groups ms) (hm : m ∈ ms) :
    ∃! g, g ∈ groups ∧ m ∈ g.2 := by
  obtain ⟨g, hg, hmem, -⟩ := (h.together_iff hm hm).2 rfl
  refine ⟨g, ⟨hg, hmem⟩, fun g' ⟨hg', hmem'⟩ => ?_⟩
  have hkey : g'.1 = g.1 :=
    Except.ok.inj ((h.of_mem hg' hmem').2.symm.trans (h.of_mem hg hmem).2)
  exact Prod.ext hkey (by rw [h.group_eq hg', h.group_eq hg, hkey])

/-- **Grouping parts messages.** -/
theorem parts_of_ofMessages (h : ofMessages ms = .ok groups) : Parts groups ms := by
  have hsorts := sorts_of_ofMessages h
  have hordered := queues_ordered ms
  rw [← hsorts.keys_eq, List.pairwise_map] at hordered
  exact {
    distinct := hsorts.nodup
    ordered := hordered
    ne_nil := hsorts.ne_nil
    group_eq := fun _ => hsorts.group_eq
    once := fun _ => hsorts.existsUnique_mem
    perm := perm_of_ofMessages h }

/-- **Grouping is a stable partition.**  Messages from queues are parted by their queues: each queue
has one group, which holds its messages in their order, the groups come in the order in which their
queues first occur, and every message is in one of them as often as it occurs.  If a source is no
resource name of a queue, the first message with one like that is what the list is refused for. -/
theorem grouping_stable (ms : List Message) :
    ((∀ m ∈ ms, IsArn m.source) → ∃ groups, ofMessages ms = .ok groups ∧ Parts groups ms) ∧
    ∀ before m after, ms = before ++ m :: after → (∀ n ∈ before, IsArn n.source) →
      ¬IsArn m.source → ofMessages ms =
        .error (.saying .valueError ("Not an SQS queue ARN: " ++ m.source.quoted)) := by
  have hlocated {ns : List Message} (hns : ∀ n ∈ ns, IsArn n.source) :
      ∀ n ∈ ns, ∃ u, n.queueUrl = .ok u :=
    fun n hn => ⟨_, n.queueUrl_eq.trans (if_pos (hns n hn))⟩
  constructor
  · intro hms
    obtain ⟨groups, hgroups⟩ := exists_ofMessages (hlocated hms)
    exact ⟨groups, hgroups, parts_of_ofMessages hgroups⟩
  · rintro before m after rfl hbefore hm
    exact ofMessages_eq_error (hlocated hbefore) (m.queueUrl_eq.trans (if_neg hm))

/-- Four messages of two queues, and the same with messages from no queue behind them. -/
theorem grouping_stable_sample :
    (∀ m ∈ Sample.scattered, IsArn m.source) ∧
    (∃ groups, ofMessages Sample.scattered = .ok groups ∧ Parts groups Sample.scattered ∧
      groups.map (fun g => g.2.map Message.id) = ([["a", "b", "c"], ["a"]] : List (List Text))) ∧
    ¬IsArn "orders" ∧
    ofMessages (Sample.scattered ++ [Sample.sent "orders" "d" "", Sample.sent "" "e" ""]) =
      .error (.saying .valueError "Not an SQS queue ARN: 'orders'") := by
  have hqueues : ∀ m ∈ Sample.scattered, IsArn m.source := by decide +kernel
  have hnone : ¬IsArn "orders" := by decide +kernel
  obtain ⟨groups, hgroups, hparts⟩ := (grouping_stable Sample.scattered).1 hqueues
  have hids : (ofMessages Sample.scattered).map (List.map fun g => g.2.map Message.id) =
      .ok ([["a", "b", "c"], ["a"]] : List (List Text)) := by decide +kernel
  rw [hgroups] at hids
  refine ⟨hqueues, ⟨groups, hgroups, hparts, Except.ok.inj hids⟩, hnone, ?_⟩
  exact (grouping_stable _).2 Sample.scattered (Sample.sent "orders" "d" "") _ rfl hqueues hnone

end QueueGroups
end PartialBatch
