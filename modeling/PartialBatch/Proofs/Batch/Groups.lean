/-
# Grouping by queue

Grouping messages by the URLs of their queues loses none and keeps their order: the group of a
queue is the sublist of its messages, and the groups come in the order in which their queues are
first seen (`queues`, `queues_ordered`). Adding one message keeps that (`Sorts.add`), so grouping a
list establishes it (`sorts_of_ofMessages`). It ends only at a message that tells no queue, and at
the first of them (`ofMessages_eq_error`).

Deleting failures with the successes of their queue takes their groups out of the others.
`flatMap_joined` puts the two passes together again: for each queue, its successes come first
and its failures after them, in whichever pass.
-/

import PartialBatch.Batch.Reconciliation
import PartialBatch.Proofs.Results
import Mathlib.Data.List.Induction
import Mathlib.Data.List.Nodup

namespace PartialBatch

/-- Whether a message came from the queue with a URL. -/
def Message.isFrom (queueUrl : Text) (m : Message) : Bool :=
  match m.queueUrl with
  | .ok url => url = queueUrl
  | .error _ => false

@[simp] theorem Message.isFrom_iff {queueUrl : Text} {m : Message} :
    m.isFrom queueUrl = true ↔ m.queueUrl = .ok queueUrl := by
  unfold Message.isFrom
  cases m.queueUrl with
  | error e => simp
  | ok url => simp

/-- The URLs of the queues of messages, in the order in which they are first seen. -/
def queues (ms : List Message) : List Text :=
  (ms.filterMap fun m => m.queueUrl.toOption).eraseDups

theorem mem_queues_iff {u : Text} {ms : List Message} :
    u ∈ queues ms ↔ ∃ m ∈ ms, m.queueUrl = .ok u := by
  simp only [queues, List.mem_eraseDups, List.mem_filterMap, toOption_eq_some]

/-- A message adds its queue behind the others, unless it was seen before. -/
theorem queues_append_singleton {ms : List Message} {m : Message} {u : Text}
    (hm : m.queueUrl = .ok u) :
    queues (ms ++ [m]) = if u ∈ queues ms then queues ms else queues ms ++ [u] := by
  have hone : [m].filterMap (fun m => m.queueUrl.toOption) = [u] := by
    simp [hm, Except.toOption]
  rw [queues, queues, List.filterMap_append, hone, List.eraseDups_append]
  generalize ms.filterMap (fun m => m.queueUrl.toOption) = us
  by_cases hseen : u ∈ us
  · simp [List.removeAll, List.mem_eraseDups, hseen]
  · simp [List.removeAll, List.mem_eraseDups, hseen, List.eraseDups_cons]

/-- A message that tells no queue adds none. -/
theorem queues_append_of_error {ms : List Message} {m : Message} {e : Error}
    (hm : m.queueUrl = .error e) : queues (ms ++ [m]) = queues ms := by
  simp [queues, List.filterMap_append, hm, Except.toOption]

section Order

variable {ms : List Message} {u : Text}

theorem findIdx_lt_of_mem_queues (h : u ∈ queues ms) :
    ms.findIdx (Message.isFrom u) < ms.length := by
  obtain ⟨m, hm, hurl⟩ := mem_queues_iff.1 h
  exact List.findIdx_lt_length_of_exists ⟨m, hm, Message.isFrom_iff.2 hurl⟩

/-- The first message of a queue is the same if others follow. -/
theorem findIdx_append_of_mem_queues (h : u ∈ queues ms) (ns : List Message) :
    (ms ++ ns).findIdx (Message.isFrom u) = ms.findIdx (Message.isFrom u) := by
  rw [List.findIdx_append, if_pos (findIdx_lt_of_mem_queues h)]

/-- The first message of a queue that was not seen comes behind all that were. -/
theorem length_le_findIdx_append (h : u ∉ queues ms) (ns : List Message) :
    ms.length ≤ (ms ++ ns).findIdx (Message.isFrom u) := by
  have hbehind : ¬ms.findIdx (Message.isFrom u) < ms.length := by
    intro hlt
    have hfrom := Message.isFrom_iff.1 (List.findIdx_getElem (w := hlt))
    exact h (mem_queues_iff.2 ⟨_, List.getElem_mem hlt, hfrom⟩)
  rw [List.findIdx_append, if_neg hbehind]
  exact Nat.le_add_left ..

/-- **Queues are listed in the order of their first messages.** -/
theorem queues_ordered (ms : List Message) : (queues ms).Pairwise fun u v =>
    ms.findIdx (Message.isFrom u) < ms.findIdx (Message.isFrom v) := by
  induction ms using List.reverseRecOn with
  | nil => exact .nil
  | append_singleton ms m ih =>
    have hseen : (queues ms).Pairwise fun u v =>
        (ms ++ [m]).findIdx (Message.isFrom u) < (ms ++ [m]).findIdx (Message.isFrom v) := by
      refine ih.imp_of_mem fun hu hv huv => ?_
      rwa [findIdx_append_of_mem_queues hu, findIdx_append_of_mem_queues hv]
    cases hm : m.queueUrl with
    | error e => rwa [queues_append_of_error hm]
    | ok v =>
      rw [queues_append_singleton hm]
      split
      · exact hseen
      · rename_i hv
        refine List.pairwise_append.2 ⟨hseen, List.pairwise_singleton _ _, fun u hu w hw => ?_⟩
        rw [List.mem_singleton.1 hw, findIdx_append_of_mem_queues hu]
        exact Nat.lt_of_lt_of_le (findIdx_lt_of_mem_queues hu) (length_le_findIdx_append hv [m])

/-- Every queue is seen for the first time once. -/
theorem nodup_queues (ms : List Message) : (queues ms).Nodup := by
  refine (queues_ordered ms).imp ?_
  rintro u _ hlt rfl
  exact Nat.lt_irrefl _ hlt

end Order

namespace QueueGroups

variable {groups : QueueGroups} {ms ns : List Message} {u v : Text} {m : Message}

@[simp] theorem get_nil : get [] u = [] := rfl

theorem get_cons {group : Text × List Message} :
    get (group :: groups) u = if group.1 = u then group.2 else groups.get u := by
  obtain ⟨url, ms⟩ := group
  by_cases h : url = u
  · simp [get, h]
  · have hbeq : (u == url) = false := by simpa using Ne.symm h
    simp only [get, List.lookup_cons, hbeq, if_neg h]

/-- A queue that has no group has no messages. -/
theorem get_eq_nil (h : u ∉ groups.map Prod.fst) : groups.get u = [] := by
  induction groups with
  | nil => rfl
  | cons group rest ih =>
    rw [List.map_cons, List.mem_cons, not_or] at h
    rw [get_cons, if_neg (Ne.symm h.1), ih h.2]

/-- With distinct queues, every group is what its queue has. -/
theorem get_of_mem (hnodup : (groups.map Prod.fst).Nodup) {group : Text × List Message}
    (h : group ∈ groups) : groups.get group.1 = group.2 := by
  induction groups with
  | nil => simp at h
  | cons first rest ih =>
    rw [List.map_cons, List.nodup_cons] at hnodup
    rcases List.mem_cons.1 h with rfl | h
    · rw [get_cons, if_pos rfl]
    · have hne : first.1 ≠ group.1 := fun heq =>
        hnodup.1 (heq ▸ List.mem_map_of_mem h)
      rw [get_cons, if_neg hne, ih hnodup.2 h]

/-- The queues that have groups, after a message was added. -/
theorem keys_add : (add u m groups).map Prod.fst =
    if u ∈ groups.map Prod.fst then groups.map Prod.fst else groups.map Prod.fst ++ [u] := by
  induction groups with
  | nil => rfl
  | cons group rest ih =>
    obtain ⟨url, ms⟩ := group
    by_cases h : url = u
    · simp [add, h]
    · simp only [add, if_neg h, List.map_cons, ih, List.mem_cons, Ne.symm h, false_or]
      split <;> simp

/-- What a queue has, after a message was added. -/
theorem get_add : (add u m groups).get v =
    if u = v then groups.get v ++ [m] else groups.get v := by
  induction groups with
  | nil => by_cases h : u = v <;> simp [add, get_cons, h]
  | cons group rest ih =>
    obtain ⟨url, ms⟩ := group
    by_cases h : url = u
    · subst h
      by_cases hv : url = v <;> simp [add, get_cons, hv]
    · by_cases hv : url = v
      · subst hv
        simp [add, get_cons, h, Ne.symm h]
      · simp [add, get_cons, h, hv, ih]

/-- Every group has a message, after a message was added. -/
theorem ne_nil_of_mem_add (h : ∀ group ∈ groups, group.2 ≠ []) :
    ∀ group ∈ add u m groups, group.2 ≠ [] := by
  induction groups with
  | nil => simp [add]
  | cons group rest ih =>
    obtain ⟨url, ms⟩ := group
    have hrest := ih fun g hg => h g (List.mem_cons_of_mem _ hg)
    unfold add
    split
    · intro g hg
      rcases List.mem_cons.1 hg with rfl | hg
      · simp
      · exact h g (List.mem_cons_of_mem _ hg)
    · intro g hg
      rcases List.mem_cons.1 hg with rfl | hg
      · exact h _ (List.mem_cons_self ..)
      · exact hrest g hg

/-- The messages are those from before, and one, after a message was added. -/
theorem perm_add :
    ((add u m groups).flatMap Prod.snd).Perm (m :: groups.flatMap Prod.snd) := by
  induction groups with
  | nil => exact .refl [m]
  | cons group rest ih =>
    obtain ⟨url, ms⟩ := group
    unfold add
    split
    · rw [List.flatMap_cons, List.flatMap_cons, List.append_assoc]
      exact List.perm_middle
    · rw [List.flatMap_cons, List.flatMap_cons]
      exact (ih.append_left ms).trans List.perm_middle

theorem perm_of_addAll {groups' : QueueGroups} (h : addAll groups ms = .ok groups') :
    (groups'.flatMap Prod.snd).Perm (ms ++ groups.flatMap Prod.snd) := by
  induction ms generalizing groups with
  | nil =>
    obtain rfl := Except.ok.inj h
    exact .refl _
  | cons m rest ih =>
    unfold addAll at h
    cases hm : m.queueUrl with
    | error e => rw [hm] at h; cases h
    | ok u =>
      rw [hm] at h
      have hrest : (groups'.flatMap Prod.snd).Perm (rest ++ (add u m groups).flatMap Prod.snd) :=
        ih h
      exact hrest.trans ((perm_add.append_left rest).trans List.perm_middle)

/-- **Groups hold the messages that were grouped**, each as often as it was among them. -/
theorem perm_of_ofMessages (h : ofMessages ms = .ok groups) :
    (groups.flatMap Prod.snd).Perm ms := by
  have hperm := perm_of_addAll h
  rwa [List.flatMap_nil, List.append_nil] at hperm

/-- Whether groups hold messages by queue. -/
structure Sorts (groups : QueueGroups) (ms : List Message) : Prop where
  keys_eq : groups.map Prod.fst = queues ms
  get_eq : ∀ u, groups.get u = ms.filter (Message.isFrom u)
  ne_nil : ∀ group ∈ groups, group.2 ≠ []
  located : ∀ m ∈ ms, ∃ u, m.queueUrl = .ok u

/-- No two groups are of one queue. -/
theorem Sorts.nodup (h : Sorts groups ms) : (groups.map Prod.fst).Nodup :=
  h.keys_eq ▸ nodup_queues ms

/-- Adding a message to the group of its queue keeps groups sorted. -/
theorem Sorts.add (h : Sorts groups ms) (hm : m.queueUrl = .ok u) :
    Sorts (QueueGroups.add u m groups) (ms ++ [m]) where
  keys_eq := by rw [keys_add, queues_append_singleton hm, h.keys_eq]
  get_eq v := by
    have hfrom : m.isFrom v = decide (u = v) := by simp [Message.isFrom, hm]
    rw [get_add, List.filter_append, h.get_eq v]
    by_cases huv : u = v <;> simp [huv, hfrom]
  ne_nil := ne_nil_of_mem_add h.ne_nil
  located := by
    intro n hn
    rcases List.mem_append.1 hn with hn | hn
    · exact h.located n hn
    · obtain rfl := List.mem_singleton.1 hn
      exact ⟨u, hm⟩

theorem Sorts.addAll (h : Sorts groups ms) {groups' : QueueGroups}
    (hadd : addAll groups ns = .ok groups') : Sorts groups' (ms ++ ns) := by
  induction ns generalizing groups ms with
  | nil =>
    obtain rfl := Except.ok.inj hadd
    simpa using h
  | cons n rest ih =>
    unfold QueueGroups.addAll at hadd
    cases hn : n.queueUrl with
    | error e => rw [hn] at hadd; cases hadd
    | ok u =>
      rw [hn] at hadd
      simpa using ih (h.add hn) hadd

/-- **Grouping sorts messages by queue.** -/
theorem sorts_of_ofMessages (h : ofMessages ms = .ok groups) : Sorts groups ms := by
  have hnil : Sorts [] [] := ⟨rfl, fun _ => rfl, by simp, by simp⟩
  simpa using hnil.addAll h

theorem exists_of_addAll_error {e : Error} (h : addAll groups ms = .error e) :
    ∃ m ∈ ms, m.queueUrl = .error e := by
  induction ms generalizing groups with
  | nil => cases h
  | cons m rest ih =>
    unfold QueueGroups.addAll at h
    cases hm : m.queueUrl with
    | error f =>
      rw [hm] at h
      obtain rfl := Except.error.inj h
      exact ⟨m, List.mem_cons_self .., hm⟩
    | ok u =>
      rw [hm] at h
      obtain ⟨n, hn, hurl⟩ := ih h
      exact ⟨n, List.mem_cons_of_mem _ hn, hurl⟩

/-- If messages cannot be grouped, one of them tells no queue. -/
theorem exists_of_ofMessages_error {e : Error} (h : ofMessages ms = .error e) :
    ∃ m ∈ ms, m.queueUrl = .error e := exists_of_addAll_error h

/-- Messages that all tell their queues can be grouped. -/
theorem exists_ofMessages (h : ∀ m ∈ ms, ∃ u, m.queueUrl = .ok u) :
    ∃ groups, ofMessages ms = .ok groups := by
  cases hgroups : ofMessages ms with
  | ok groups => exact ⟨groups, rfl⟩
  | error e =>
    obtain ⟨m, hm, herror⟩ := exists_of_ofMessages_error hgroups
    obtain ⟨u, hu⟩ := h m hm
    cases herror.symm.trans hu

/-- Messages are added after those before them. -/
theorem addAll_append : addAll groups (ms ++ ns) = addAll groups ms >>= (addAll · ns) := by
  induction ms generalizing groups with
  | nil => rfl
  | cons m rest ih =>
    rw [List.cons_append, addAll, addAll]
    cases m.queueUrl with
    | error e => rfl
    | ok u => exact ih

/-- **The first message that tells no queue ends the grouping**, whatever follows it. -/
theorem ofMessages_eq_error {e : Error} (h : ∀ n ∈ ms, ∃ u, n.queueUrl = .ok u)
    (hm : m.queueUrl = .error e) : ofMessages (ms ++ m :: ns) = .error e := by
  obtain ⟨groups, hgroups⟩ := exists_ofMessages h
  rw [ofMessages] at hgroups ⊢
  rw [addAll_append, hgroups]
  change addAll groups (m :: ns) = _
  rw [addAll, hm]
  rfl

/-- A group holds the messages of its queue. -/
theorem Sorts.group_eq (h : Sorts groups ms) {group : Text × List Message} (hg : group ∈ groups) :
    group.2 = ms.filter (Message.isFrom group.1) := by
  rw [← h.get_eq, get_of_mem h.nodup hg]

/-- A message of a group is one of those that were grouped, and comes from its queue. -/
theorem Sorts.of_mem (h : Sorts groups ms) {group : Text × List Message} (hg : group ∈ groups)
    (hm : m ∈ group.2) : m ∈ ms ∧ m.queueUrl = .ok group.1 := by
  rw [h.group_eq hg] at hm
  simpa using hm

/-- A group comes from the queue of a message. -/
theorem Sorts.exists_mem (h : Sorts groups ms) {group : Text × List Message}
    (hg : group ∈ groups) : ∃ m ∈ ms, m.queueUrl = .ok group.1 := by
  obtain ⟨m, hm⟩ := List.exists_mem_of_ne_nil _ (h.ne_nil group hg)
  exact ⟨m, h.of_mem hg hm⟩

/-- Messages are in one group exactly if they come from one queue. -/
theorem Sorts.together_iff (h : Sorts groups ms) {n : Message} (hm : m ∈ ms) (hn : n ∈ ms) :
    (∃ group ∈ groups, m ∈ group.2 ∧ n ∈ group.2) ↔ m.queueUrl = n.queueUrl := by
  constructor
  · rintro ⟨group, hgroup, hmem, hnmem⟩
    rw [(h.of_mem hgroup hmem).2, (h.of_mem hgroup hnmem).2]
  · intro heq
    obtain ⟨u, hu⟩ := h.located m hm
    have hkey : u ∈ groups.map Prod.fst := by
      rw [h.keys_eq]
      exact mem_queues_iff.2 ⟨m, hm, hu⟩
    obtain ⟨group, hgroup, rfl⟩ := List.mem_map.1 hkey
    refine ⟨group, hgroup, ?_⟩
    rw [h.group_eq hgroup, List.mem_filter, List.mem_filter, Message.isFrom_iff,
      Message.isFrom_iff]
    exact ⟨⟨hm, hu⟩, hn, heq.symm.trans hu⟩

/-- Messages by queue, with the queues in the order in which they are first seen. -/
def byQueue (ms : List Message) : QueueGroups :=
  (queues ms).map fun u => (u, ms.filter (Message.isFrom u))

/-- **Sorted groups are the messages by queue.** -/
theorem Sorts.eq_byQueue (h : Sorts groups ms) : groups = byQueue ms := by
  rw [byQueue, ← h.keys_eq, List.map_map]
  have hself (group) (hgroup : group ∈ groups) :
      ((fun u => (u, ms.filter (Message.isFrom u))) ∘ Prod.fst) group = id group := by
    rw [Function.comp_apply, ← h.group_eq hgroup]
    rfl
  rw [List.map_congr_left hself, List.map_id]

/-! ## One list for each queue -/

/-- With distinct queues, what all groups have of a queue is what its group has. -/
theorem flatMap_get (hnodup : (groups.map Prod.fst).Nodup) :
    (groups.flatMap fun group => if group.1 = u then group.2 else []) = groups.get u := by
  induction groups with
  | nil => rfl
  | cons group rest ih =>
    rw [List.map_cons, List.nodup_cons] at hnodup
    rw [List.flatMap_cons, ih hnodup.2, get_cons]
    by_cases h : group.1 = u
    · rw [if_pos h, if_pos h, get_eq_nil (h ▸ hnodup.1), List.append_nil]
    · rw [if_neg h, if_neg h, List.nil_append]

/-- Messages by queue have for each queue its messages. -/
theorem flatMap_byQueue (u : Text) :
    ((byQueue ms).flatMap fun group => if group.1 = u then group.2 else []) =
      ms.filter (Message.isFrom u) := by
  have hkeys : (byQueue ms).map Prod.fst = queues ms := by
    rw [byQueue, List.map_map]
    exact List.map_id _
  rw [flatMap_get (hkeys ▸ nodup_queues ms)]
  by_cases hu : u ∈ queues ms
  · have hmem : (u, ms.filter (Message.isFrom u)) ∈ byQueue ms :=
      List.mem_map_of_mem (f := fun v => (v, ms.filter (Message.isFrom v))) hu
    exact get_of_mem (hkeys ▸ nodup_queues ms) hmem
  · rw [get_eq_nil (hkeys ▸ hu), eq_comm, List.filter_eq_nil_iff]
    intro m hm hfrom
    exact hu (mem_queues_iff.2 ⟨m, hm, Message.isFrom_iff.1 hfrom⟩)

/-- A queue has a group, or none is found for it. -/
theorem lookup_isNone_iff : (groups.lookup u).isNone ↔ u ∉ groups.map Prod.fst := by
  induction groups with
  | nil => simp
  | cons group rest ih =>
    obtain ⟨url, ms⟩ := group
    by_cases h : u = url
    · simp [h]
    · have hbeq : (u == url) = false := by simpa using h
      rw [List.lookup_cons, hbeq, ih, List.map_cons, List.mem_cons, not_or]
      simp [h]

/-- Joining groups with others, and those others that were not joined, hold for each queue what
both have. -/
theorem flatMap_joined {others : QueueGroups} (hgroups : (groups.map Prod.fst).Nodup)
    (hothers : (others.map Prod.fst).Nodup) :
    ((groups.map fun group => (group.1, group.2 ++ others.get group.1)) ++
        others.without groups).flatMap (fun group => if group.1 = u then group.2 else []) =
      groups.get u ++ others.get u := by
  have hkeys : ((groups.map fun group => (group.1, group.2 ++ others.get group.1)).map Prod.fst) =
      groups.map Prod.fst := by rw [List.map_map]; rfl
  have hwithout : ((others.without groups).map Prod.fst).Nodup :=
    ((List.filter_sublist (l := others)).map Prod.fst).nodup hothers
  rw [List.flatMap_append, flatMap_get (hkeys ▸ hgroups), flatMap_get hwithout]
  by_cases hu : u ∈ groups.map Prod.fst
  · have hjoined : get (groups.map fun group => (group.1, group.2 ++ others.get group.1)) u =
        groups.get u ++ others.get u := by
      obtain ⟨group, hgroup, rfl⟩ := List.mem_map.1 hu
      have hmem := List.mem_map_of_mem (f := fun group : Text × List Message =>
        (group.1, group.2 ++ others.get group.1)) hgroup
      rw [get_of_mem (hkeys ▸ hgroups) hmem, get_of_mem hgroups hgroup]
    have hnone : (others.without groups).get u = [] := by
      refine get_eq_nil fun hmem => ?_
      obtain ⟨group, hgroup, rfl⟩ := List.mem_map.1 hmem
      exact lookup_isNone_iff.1 (List.mem_filter.1 hgroup).2 hu
    rw [hjoined, hnone, List.append_nil]
  · rw [get_eq_nil (hkeys ▸ hu), get_eq_nil hu]
    have hrest : (others.without groups).get u = others.get u := by
      by_cases ho : u ∈ others.map Prod.fst
      · obtain ⟨group, hgroup, rfl⟩ := List.mem_map.1 ho
        have hmem : group ∈ others.without groups :=
          List.mem_filter.2 ⟨hgroup, lookup_isNone_iff.2 hu⟩
        rw [get_of_mem hwithout hmem, get_of_mem hothers hgroup]
      · have hnone : u ∉ (others.without groups).map Prod.fst := fun h =>
          ho ((List.filter_sublist.map Prod.fst).subset h)
        rw [get_eq_nil hnone, get_eq_nil ho]
    rw [hrest]

/-- Groups joined with others: to each queue what the others have of it, then their own queues. -/
def joined (groups others : QueueGroups) : QueueGroups :=
  (groups.map fun group => (group.1, group.2 ++ others.get group.1)) ++ others.without groups

/-- Joining groups with others keeps the queues distinct. -/
theorem nodup_joined {others : QueueGroups} (hgroups : (groups.map Prod.fst).Nodup)
    (hothers : (others.map Prod.fst).Nodup) : ((joined groups others).map Prod.fst).Nodup := by
  have hkeys : ((groups.map fun group => (group.1, group.2 ++ others.get group.1)).map Prod.fst) =
      groups.map Prod.fst := by rw [List.map_map]; rfl
  rw [joined, List.map_append, hkeys]
  refine List.nodup_append.2
    ⟨hgroups, ((List.filter_sublist (l := others)).map Prod.fst).nodup hothers, ?_⟩
  rintro v hv w hw rfl
  obtain ⟨group, hgroup, rfl⟩ := List.mem_map.1 hw
  exact lookup_isNone_iff.1 (List.mem_filter.1 hgroup).2 hv

/-- Joining groups with others gives each queue what both have. -/
theorem get_joined {others : QueueGroups} (hgroups : (groups.map Prod.fst).Nodup)
    (hothers : (others.map Prod.fst).Nodup) :
    (joined groups others).get u = groups.get u ++ others.get u := by
  rw [← flatMap_get (nodup_joined hgroups hothers), joined, flatMap_joined hgroups hothers]

end QueueGroups
end PartialBatch
