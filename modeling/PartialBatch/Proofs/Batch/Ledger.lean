/-
# What is kept on failures

A reconciliation that ends well has told what became of each failure, in entries of four kinds that
are made in different places and count different collections.

| entry | key | tells |
| --- | --- | --- |
| `retryable_messages_left_on_queue` | `count` | how many failures are not final |
| `non_retryable_messages_deleted` | `count` | how many are final, if these are to be deleted |
| `non_retryable_messages_moved` | `moved` | how many of a queue are in no answer |
| `non_retryable_messages_moved` | `failed` | how many ids are in the answers for a queue |
| `dead_letter_queue_not_configured` | `message_ids` | the ids of a queue |

The entries of the first two kinds are left out if there is nothing to tell (`counts`).  What is
told about a queue adds up to its messages if its ids are distinct and the answers list only ids of
their own requests (`length_moved_add`): then each id that is collected stands for one message,
however often it is listed and in how many chunks the messages were sent.  Over queues the sums add up
(`Ledger.append`), and entries on single requests tell nothing (`Ledger.of_isOwn`).
-/

import PartialBatch.Proofs.Batch.NoLoss
import PartialBatch.Proofs.Batch.Questions
import PartialBatch.Proofs.Log.Written

namespace PartialBatch

open Log

/-- Whether the answer to a call lists as failed only what is named by an entry of the request. -/
def Call.NamesOwn (c : Call) : Prop :=
  ∀ entry ∈ c.failed, ∀ id, Batch.entryId entry = .ok id →
    ∃ own ∈ c.request.entries, Batch.entryId own = .ok id

instance (c : Call) : Decidable c.NamesOwn :=
  decidable_of_iff (∀ entry ∈ c.failed, ∀ id ∈ (Batch.entryId entry).toOption,
    ∃ own ∈ c.request.entries, Batch.entryId own = .ok id) (by
      have htoOption (entry id : Value) :
          id ∈ (Batch.entryId entry).toOption ↔ Batch.entryId entry = .ok id := by
        cases Batch.entryId entry <;> simp [Except.toOption]
      simp only [htoOption]
      exact Iff.rfl)

/-! ## Sums -/

namespace Log

/-- How many a value tells: a number says it, and a list holds them. -/
def amount : Option Value → Int
  | some (.int n) => n
  | some (.list vs) => vs.length
  | _ => 0

/-- How many values tell together. -/
def total : List (Option Value) → Int
  | [] => 0
  | v :: vs => amount v + total vs

@[simp] theorem total_nil : total [] = 0 := rfl

@[simp] theorem total_cons (v : Option Value) (vs : List (Option Value)) :
    total (v :: vs) = amount v + total vs := rfl

@[simp] theorem total_append (vs ws : List (Option Value)) :
    total (vs ++ ws) = total vs + total ws := by
  induction vs with
  | nil => exact (Int.zero_add _).symm
  | cons v vs ih => rw [List.cons_append, total_cons, total_cons, ih, Int.add_assoc]

/-- What is told of a number of messages in an entry that is left out for none. -/
def counts (n : Nat) : List (Option Value) := if n = 0 then [] else [some (.int n)]

@[simp] theorem counts_zero : counts 0 = [] := rfl

theorem total_counts (n : Nat) : total (counts n) = n := by
  unfold counts
  split
  · rename_i h
    rw [h]
    rfl
  · exact Int.add_zero _

theorem counts_append {m n : Nat} (h : m = 0 ∨ n = 0) : counts m ++ counts n = counts (m + n) := by
  rcases h with rfl | rfl <;> simp

theorem none_notMem_counts (n : Nat) : none ∉ counts n := by
  unfold counts
  split <;> simp

theorem length_counts_le (n : Nat) : (counts n).length ≤ 1 := by
  unfold counts
  split
  · exact Nat.zero_le _
  · exact Nat.le_refl _

end Log

/-- Nothing is noted about an event in entries of other kinds. -/
theorem notes_of_isOwn {lines : List (Text × Log.Level)} {event : Text} {t : List Event}
    (h : ∀ e ∈ t, e.ask.IsOwn lines) (hevent : event ∉ lines.map Prod.fst) :
    notes event t = [] := by
  refine List.filterMap_eq_nil_iff.2 fun e he => ?_
  obtain ⟨q, answer⟩ := e
  have hq := h _ he
  cases q with
  | log entry =>
    obtain ⟨level, event', fields, rfl, hmem, -⟩ := hq
    refine if_neg fun heq => hevent ?_
    rw [← Value.text.inj heq]
    exact List.mem_map_of_mem hmem
  | _ => rfl

namespace Batch

/-! ## Messages and collected ids -/

/-- A set of values that equal themselves holds each once. -/
theorem nodup_foldl_insertMember {ids new : List Value} (hids : ids.Nodup)
    (hnew : ∀ v ∈ new, v.isNaN = false) : (new.foldl Value.insertMember ids).Nodup := by
  induction new generalizing ids with
  | nil => exact hids
  | cons v rest ih =>
    obtain ⟨hv, hrest⟩ := List.forall_mem_cons.1 hnew
    refine ih ?_ hrest
    unfold Value.insertMember
    split
    · exact hids
    · rename_i hmem
      rw [hv] at hmem
      have hout : v ∉ ids := fun hin => hmem ⟨hin, rfl⟩
      refine List.nodup_append.2 ⟨hids, List.nodup_singleton v, fun w hw x hx heq => ?_⟩
      obtain rfl := List.mem_singleton.1 hx
      exact hout (heq ▸ hw)

/-- Messages with distinct ids are those whose ids are in a set, as many as it has members, and the
others. -/
theorem length_filter_add {ms : List Message} {ids : List Value} (hms : (ms.map Message.id).Nodup)
    (hids : ids.Nodup) (hnamed : ∀ v ∈ ids, ∃ m ∈ ms, v = .text m.id) :
    (ms.filter fun m => .text m.id ∉ ids).length + ids.length = ms.length := by
  have hinj : Function.Injective Value.text := fun _ _ => Value.text.inj
  have hnodup : ((ms.filter fun m => .text m.id ∈ ids).map fun m => Value.text m.id).Nodup := by
    have hmap := hms.map hinj
    rw [List.map_map] at hmap
    exact (List.filter_sublist.map _).nodup hmap
  have hperm : ids.Perm ((ms.filter fun m => .text m.id ∈ ids).map fun m => Value.text m.id) := by
    refine (List.perm_ext_iff_of_nodup hids hnodup).2 fun v => ?_
    rw [List.mem_map]
    constructor
    · intro hv
      obtain ⟨m, hm, rfl⟩ := hnamed v hv
      exact ⟨m, List.mem_filter.2 ⟨hm, decide_eq_true hv⟩, rfl⟩
    · rintro ⟨m, hm, rfl⟩
      exact of_decide_eq_true (List.mem_filter.1 hm).2
  rw [hperm.length_eq, List.length_map, Nat.add_comm,
    List.length_eq_length_filter_add (l := ms) fun m => Value.text m.id ∈ ids]
  simp

variable {size : Size} {queueUrl : Text} {ms : List Message} {cs : List Call} {t u : List Event}

/-- What is collected from answers to sends that list only ids of their own are ids of the messages
that were sent. -/
theorem message_of_flatten {url : Value} {entries : List Value} {idss : List (List Value)}
    (hentries : Message.sendEntries ms = .ok entries)
    (hissued : Issued failedIds (chunkPlan (.send url) entries size) cs idss none)
    (hown : ∀ c ∈ cs, c.NamesOwn) {v : Value} (hv : v ∈ idss.flatten) :
    ∃ m ∈ ms, v = .text m.id := by
  obtain ⟨c, hc, entry, hentry, hid⟩ := (mem_flatten_iff_entry hissued).1 hv
  obtain ⟨own, hmem, hownId⟩ := hown c hc entry hentry v hid
  obtain ⟨es, hr, hes⟩ := exists_of_mem_chunkPlan (hissued.request_mem hc)
  rw [hr] at hmem
  have hin : .ok own ∈ ms.map Message.sendEntry := by
    rw [mapM_eq_ok.1 hentries]
    exact List.mem_map_of_mem (hes hmem)
  obtain ⟨m, hm, hsend⟩ := List.mem_map.1 hin
  exact ⟨m, hm, Except.ok.inj (hownId.symm.trans (entryId_of_sendEntry hsend))⟩

/-- **Messages that were sent are those that are in no answer, and as many as the ids that are
collected**, if their ids are distinct and the answers list only ids of their own requests. -/
theorem length_moved_add {url : Value} {entries : List Value} {idss : List (List Value)}
    (hids : (ms.map Message.id).Nodup) (hentries : Message.sendEntries ms = .ok entries)
    (hissued : Issued failedIds (chunkPlan (.send url) entries size) cs idss none)
    (hown : ∀ c ∈ cs, c.NamesOwn) :
    (ms.filter fun m => .text m.id ∉ idss.flatten.foldl Value.insertMember []).length +
      (idss.flatten.foldl Value.insertMember []).length = ms.length := by
  have hnamed (v : Value) (hv : v ∈ idss.flatten) : ∃ m ∈ ms, v = .text m.id :=
    message_of_flatten hentries hissued hown hv
  have hnodup : (idss.flatten.foldl Value.insertMember []).Nodup := by
    refine nodup_foldl_insertMember List.nodup_nil fun v hv => ?_
    obtain ⟨m, -, rfl⟩ := hnamed v hv
    rfl
  refine length_filter_add hids hnodup fun v hv => ?_
  rw [mem_foldl_insertMember] at hv
  exact hnamed v (hv.resolve_left List.not_mem_nil)

/-! ## The ledger -/

/-- What entries on the queues of failures are told under. -/
def redriveKeys : List (Text × Text) :=
  [("non_retryable_messages_moved", "moved"), ("non_retryable_messages_moved", "failed"),
    ("dead_letter_queue_not_configured", "message_ids")]

/-- Whether entries account for failures: how many are left, how many are deleted without being
moved, and how many are told with their queue. -/
structure Ledger (t : List Event) (left deleted redriven : Nat) : Prop where
  left : said "retryable_messages_left_on_queue" "count" t = counts left
  deleted : said "non_retryable_messages_deleted" "count" t = counts deleted
  redriven : total (redriveKeys.flatMap fun k => said k.1 k.2 t) = redriven
  complete : ∀ k ∈ redriveKeys, none ∉ said k.1 k.2 t

/-- Entries on single requests, and on the batch as a whole, account for nothing. -/
theorem Ledger.of_isOwn (h : ∀ e ∈ t, e.ask.IsOwn (routineLines ++ batchLines)) :
    Ledger t 0 0 0 := by
  have hnone (event key : Text) (hevent : event ∈ accountLines.map Prod.fst) :
      said event key t = [] := by
    have hother : event ∉ (routineLines ++ batchLines).map Prod.fst := by
      simp only [accountLines, List.map_cons, List.map_nil, List.mem_cons, List.not_mem_nil,
        or_false] at hevent
      rcases hevent with rfl | rfl | rfl | rfl <;>
        simp [routineLines, batchLines, Text.ofString_inj]
    rw [said, notes_of_isOwn h hother, List.map_nil]
  refine ⟨hnone _ _ (by simp [accountLines]), hnone _ _ (by simp [accountLines]), ?_, ?_⟩
  · simp [redriveKeys, hnone, accountLines]
  · simp [redriveKeys, hnone, accountLines]

/-- **Entries one after another account for the sum**, if only one of them is on what is left, and
one on what is deleted. -/
theorem Ledger.append {left left' deleted deleted' n k : Nat} (h : Ledger t left deleted n)
    (h' : Ledger u left' deleted' k) (hleft : left = 0 ∨ left' = 0)
    (hdeleted : deleted = 0 ∨ deleted' = 0) :
    Ledger (t ++ u) (left + left') (deleted + deleted') (n + k) where
  left := by rw [said_append, h.left, h'.left, counts_append hleft]
  deleted := by rw [said_append, h.deleted, h'.deleted, counts_append hdeleted]
  redriven := by
    have hsum := congrArg₂ (· + ·) h.redriven h'.redriven
    simp only [redriveKeys, List.flatMap_cons, List.flatMap_nil, said_append,
      total_append, total_nil] at hsum ⊢
    omega
  complete key hkey := by
    rw [said_append, List.mem_append, not_or]
    exact ⟨h.complete key hkey, h'.complete key hkey⟩

/-- Entries on single requests do not change what others behind them account for. -/
theorem Ledger.behind {left deleted n : Nat} (h : Ledger u left deleted n)
    (ht : ∀ e ∈ t, e.ask.IsOwn (routineLines ++ batchLines)) : Ledger (t ++ u) left deleted n := by
  have hsum := (of_isOwn ht).append h (.inl rfl) (.inl rfl)
  rwa [Nat.zero_add, Nat.zero_add, Nat.zero_add] at hsum

/-- What is told if there is something to tell. -/
theorem ledger_of_left {n : Nat} {x : Except Error Unit}
    (h : (if n ≠ 0 then Run.log .info "retryable_messages_left_on_queue" [("count", .int n)]
      else pure () : Run Unit).Ends t x) : Ledger t n 0 0 := by
  split at h
  · rename_i hn
    obtain ⟨rfl, -⟩ := Run.ends_log.1 h
    refine ⟨?_, ?_, ?_, ?_⟩
    · simp [said_ofValues, Entries.get?_cons, counts, hn]
    · simp [said_ofValues, Text.ofString_inj]
    · simp [redriveKeys, said_ofValues, Text.ofString_inj]
    · simp [redriveKeys, said_ofValues, Text.ofString_inj]
  · rename_i hn
    obtain ⟨rfl, -⟩ := Run.ends_pure.1 h
    obtain rfl : n = 0 := not_not.1 hn
    exact .of_isOwn (by simp)

/-- An entry on all failures that were deleted without being moved accounts for them. -/
theorem ledger_of_deleted {n : Nat} (hn : n ≠ 0) :
    Ledger [⟨.log (.ofValues .info "non_retryable_messages_deleted" [("count", .int n)]), ()⟩]
      0 n 0 := by
  refine ⟨?_, ?_, ?_, ?_⟩
  · simp [said_ofValues, Text.ofString_inj]
  · simp [said_ofValues, Entries.get?_cons, counts, hn]
  · simp [redriveKeys, said_ofValues, Text.ofString_inj]
  · simp [redriveKeys, said_ofValues, Text.ofString_inj]

/-- An entry on failures of a queue that has no dead-letter queue accounts for them. -/
theorem ledger_of_unconfigured {url : Value} :
    Ledger [⟨.log (.ofValues .error "dead_letter_queue_not_configured"
      [("queue_url", url), ("message_ids", .list (ms.map fun m => .text m.id))]), ()⟩]
      0 0 ms.length := by
  refine ⟨?_, ?_, ?_, ?_⟩
  · simp [said_ofValues, Text.ofString_inj]
  · simp [said_ofValues, Text.ofString_inj]
  · simp [redriveKeys, said_ofValues, Text.ofString_inj, amount, Entries.get?_cons]
  · simp [redriveKeys, said_ofValues, Text.ofString_inj, Entries.get?_cons]

/-- An entry on failures of a queue that were sent accounts for those that were moved and those that
were not. -/
theorem ledger_of_moved {url deadLetterUrl : Value} {moved failed : Nat} :
    Ledger [⟨.log (.ofValues .info "non_retryable_messages_moved"
      [("queue_url", url), ("dead_letter_queue_url", deadLetterUrl), ("moved", .int moved),
        ("failed", .int failed)]), ()⟩]
      0 0 (moved + failed) := by
  refine ⟨?_, ?_, ?_, ?_⟩
  · simp [said_ofValues, Text.ofString_inj]
  · simp [said_ofValues, Text.ofString_inj]
  · simp [redriveKeys, said_ofValues, Text.ofString_inj, amount, Entries.get?_cons]
  · simp [redriveKeys, said_ofValues, Text.ofString_inj, Entries.get?_cons]

/-! ## Reconciliations -/

/-- **What is told about a queue accounts for its failures**, if their ids are distinct and every
answer names only ids of its own request. -/
theorem ledger_of_moveMessages {moved : List Message}
    (h : (moveMessages size queueUrl ms).Ends t (.ok moved)) (hids : (ms.map Message.id).Nodup)
    (hown : ∀ c ∈ calls t, c.NamesOwn) : Ledger t 0 0 ms.length := by
  unfold moveMessages at h
  obtain ⟨e, -, heq⟩ | ⟨t₁, policy?, t₂, hread, hrest, rfl⟩ := Run.ends_bind.1 h
  · cases heq
  refine Ledger.behind ?_ (QueueClient.asksIn_redrivePolicy.of_ends hread)
  cases policy? with
  | none =>
    obtain ⟨rest, rfl, rfl, -⟩ := Run.ends_log_bind.1 hrest
    exact ledger_of_unconfigured
  | some policy =>
    obtain ⟨e, -, -, heq⟩ | ⟨deadLetterUrl, -, hrest⟩ := Run.ends_lift_bind.1 hrest
    · cases heq
    obtain ⟨e, -, -, heq⟩ | ⟨entries, hentries, hrest⟩ := Run.ends_lift_bind.1 hrest
    · cases heq
    obtain ⟨e, -, -, heq⟩ | ⟨ess, hchunk, hrest⟩ := Run.ends_lift_bind.1 hrest
    · cases heq
    obtain ⟨e, -, heq⟩ | ⟨t₃, ids, t₄, hsend, hlog, rfl⟩ := Run.ends_bind.1 hrest
    · cases heq
    obtain ⟨rest, rfl, rfl, -⟩ := Run.ends_log_bind.1 hlog
    have hsends (e : Event) (he : e ∈ t₃) : e.ask.IsOwn (routineLines ++ batchLines) :=
      ((asksIn_sendChunks [] ess).of_ends hsend e he).mono (List.subset_append_left ..)
    obtain ⟨idss, stop, hissued, heq⟩ := issued_of_sendChunks hsend
    cases stop with
    | some e => cases heq
    | none =>
      obtain rfl := Except.ok.inj heq
      have hplan : ess.map (chunkRequest (.send (.text deadLetterUrl))) =
          chunkPlan (.send (.text deadLetterUrl)) entries size := by rw [chunkPlan, hchunk]
      rw [hplan] at hissued
      simp only [calls_append, List.forall_mem_append] at hown
      rw [← length_moved_add hids hentries hissued hown.2.1]
      exact ledger_of_moved.behind hsends

/-- What is told about queues accounts for the failures of all of them. -/
theorem ledger_of_moveGroups {groups : QueueGroups} (h : (moveGroups size groups).Ends t (.ok ()))
    (hids : ∀ group ∈ groups, (group.2.map Message.id).Nodup)
    (hown : ∀ c ∈ calls t, c.NamesOwn) :
    Ledger t 0 0 (groups.flatMap Prod.snd).length := by
  induction groups generalizing t with
  | nil =>
    obtain ⟨rfl, -⟩ := Run.ends_pure.1 h
    exact .of_isOwn (by simp)
  | cons group rest ih =>
    obtain ⟨url, ms⟩ := group
    obtain ⟨hms, hrestIds⟩ := List.forall_mem_cons.1 hids
    obtain ⟨e, -, heq⟩ | ⟨t₁, moved, t₂, hmove, hrest, rfl⟩ := Run.ends_bind.1 h
    · cases heq
    obtain ⟨e, -, heq⟩ | ⟨t₃, _, t₄, hdelete, hothers, rfl⟩ := Run.ends_bind.1 hrest
    · cases heq
    simp only [calls_append, List.forall_mem_append] at hown
    have hdeletes (e : Event) (he : e ∈ t₃) : e.ask.IsOwn (routineLines ++ batchLines) :=
      ((asksIn_deleteMessages moved).of_ends hdelete e he).mono (List.subset_append_left ..)
    rw [List.flatMap_cons, List.length_append]
    exact (ledger_of_moveMessages hmove hms hown.1).append
      ((ih hothers hrestIds hown.2.2).behind hdeletes) (.inl rfl) (.inl rfl)

variable {settings : Settings} {triage : Triage} {succeeded : List Message}
  {failed : List (Message × Error)}

/-- **A reconciliation that ends well accounts for all failures**: those that may be handled again
are left, and the others are deleted, or told with their queue. -/
theorem ledger_of_reconcile (h : (reconcile settings triage succeeded failed).Ends t (.ok ()))
    (hids : DistinctIds (finals triage failed)) (hown : ∀ c ∈ calls t, c.NamesOwn) :
    Ledger t (failed.length - (finals triage failed).length)
      (if settings.deleteNonRetryable.truthy then (finals triage failed).length else 0)
      (if settings.deleteNonRetryable.truthy then 0 else (finals triage failed).length) := by
  have hdeletes {groups : QueueGroups} {t : List Event}
      (h : (deleteGroups settings.maxBatchSize groups).Ends t (.ok ())) (e : Event) (he : e ∈ t) :
      e.ask.IsOwn (routineLines ++ batchLines) :=
    ((asksIn_deleteGroups groups).of_ends h e he).mono (List.subset_append_left ..)
  unfold reconcile at h
  obtain ⟨e, -, -, heq⟩ | ⟨final, hfinal, hgroups⟩ := Run.ends_lift_bind.1 h
  · cases heq
  clear h
  obtain rfl := nonRetryable_eq_ok hfinal
  obtain ⟨e, -, -, heq⟩ | ⟨groups, -, hothers⟩ := Run.ends_lift_bind.1 hgroups
  · cases heq
  clear hgroups
  obtain ⟨e, -, -, heq⟩ | ⟨others, hsorted, h⟩ := Run.ends_lift_bind.1 hothers
  · cases heq
  clear hothers
  split at h
  · rename_i hflag
    rw [if_pos hflag, if_pos hflag]
    obtain ⟨e, -, heq⟩ | ⟨t₁, _, t₂, hfirst, hrest, rfl⟩ := Run.ends_bind.1 h
    · cases heq
    obtain ⟨e, -, heq⟩ | ⟨t₃, _, t₄, hsecond, hlast, rfl⟩ := Run.ends_bind.1 hrest
    · cases heq
    refine Ledger.behind (Ledger.behind ?_ (hdeletes hsecond)) (hdeletes hfirst)
    split at hlast
    · rename_i hfinal
      have hne : (finals triage failed).length ≠ 0 := fun hzero => by
        simp [List.length_eq_zero_iff.1 hzero] at hfinal
      obtain ⟨rest, rfl, hleft⟩ := Run.ends_log_bind.1 hlast
      have hsum := (ledger_of_deleted hne).append (ledger_of_left hleft) (.inl rfl) (.inr rfl)
      rwa [Nat.zero_add] at hsum
    · rename_i hfinal
      have hzero : (finals triage failed).length = 0 := by simpa using hfinal
      have hleft := ledger_of_left hlast
      rwa [hzero] at hleft ⊢
  · rename_i hflag
    rw [if_neg hflag, if_neg hflag]
    obtain ⟨e, -, heq⟩ | ⟨t₁, _, t₂, hfirst, hrest, rfl⟩ := Run.ends_bind.1 h
    · cases heq
    obtain ⟨e, -, heq⟩ | ⟨t₃, _, t₄, hmove, hlast, rfl⟩ := Run.ends_bind.1 hrest
    · cases heq
    simp only [calls_append, List.forall_mem_append] at hown
    have hmoves := ledger_of_moveGroups hmove (fun group hgroup => ?_) hown.2.1
    · rw [(QueueGroups.perm_of_ofMessages hsorted).length_eq] at hmoves
      have hsum := hmoves.append (ledger_of_left hlast) (.inl rfl) (.inl rfl)
      rw [Nat.zero_add, Nat.add_zero] at hsum
      exact hsum.behind (hdeletes hfirst)
    · rw [(QueueGroups.sorts_of_ofMessages hsorted).group_eq hgroup]
      exact hids group.1

end Batch
end PartialBatch
