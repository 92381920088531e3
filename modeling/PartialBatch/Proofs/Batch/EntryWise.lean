/-
# Services that decide on each entry

A queue service may decide on each entry of a request on its own, by the queue and by what the entry
holds (`EntryWise`).  What it lists as failed of a request is then put together from its decisions, so
it lists the same ids of a pass, however that is cut into requests.

What a cleanup comes to with such a service can be told without its requests: the passes it goes in,
and the error that ends it, if one does.

| step | passes |
| --- | --- |
| `move` | the redrive policy is read; all messages are sent, if it names a queue |
| `block` | those of `move`, then what was accepted is deleted |
| `redrive` | a block for each queue, up to the first that does not end well |
| `cleanup` | the successes are deleted, then `redrive`; or everything is deleted |

The size of requests is in none of them.  With chunks of `n` entries the requests of a cleanup are
these passes cut at `n`, and it ends as they do (`requests_of_reconcile`): such a service cuts no pass
short, and the ids that several answers list add up to those that a single one would list
(`unlisted_eq_accepted`).
-/

import PartialBatch.Proofs.Batch.Passes
import PartialBatch.Proofs.Batch.Separation

namespace PartialBatch

/-! ## Services that decide on each entry -/

/-- Whether the answer to a call lists exactly the ids of entries as failed. -/
def Call.ListsIdsOf (c : Call) (entries : List Value) : Prop :=
  ∃ ids, c.answer >>= Batch.failedIds = .ok ids ∧
    ∀ id, id ∈ ids ↔ ∃ entry ∈ entries, Batch.entryId entry = .ok id

/-- A queue service that decides on each entry of a request on its own. -/
structure EntryWise where
  /-- What it answers about a queue. -/
  attributes : Text → Value
  /-- Whether it refuses to delete from a queue what an entry names. -/
  keeps : Text → Value → Bool
  /-- Whether it refuses an entry that is sent to a queue. -/
  rejects : Text → Value → Bool

namespace EntryWise

/-- Whether a call is answered by a service: nothing is raised, and what it refuses of the entries is
what the answer lists as failed. -/
def Answers (s : EntryWise) (c : Call) : Prop :=
  match c.request with
  | .delete (.text url) (.list es) => c.ListsIdsOf (es.filter (s.keeps url))
  | .send (.text url) (.list es) => c.ListsIdsOf (es.filter (s.rejects url))
  | .attributes (.text url) _ => c.answer = .ok (s.attributes url)
  | _ => ∃ answer, c.answer = .ok answer

/-- An answer that lists entries as failed, as far as they name an id. -/
def listing (entries : List Value) : Value :=
  .object [("Failed", .list (entries.filter fun entry => (Batch.entryId entry).toOption.isSome))]

/-- How a service may answer. -/
def serve (s : EntryWise) : Request → Value
  | .delete (.text url) (.list es) => listing (es.filter (s.keeps url))
  | .send (.text url) (.list es) => listing (es.filter (s.rejects url))
  | .attributes (.text url) _ => s.attributes url
  | _ => .null

theorem listsIdsOf_listing {c : Call} {entries : List Value}
    (h : c.answer = .ok (listing entries)) : c.ListsIdsOf entries := by
  have hfailed : QueueClient.failedEntries (listing entries) =
      .ok (entries.filter fun entry => (Batch.entryId entry).toOption.isSome) := by
    rw [listing, failedEntries_object rfl]
    generalize (entries.filter fun entry => (Batch.entryId entry).toOption.isSome) = named
    cases named <;> rfl
  refine ⟨entries.filterMap fun entry => (Batch.entryId entry).toOption, ?_, fun id => ?_⟩
  · rw [h, Batch.bind_failedIds]
    change QueueClient.failedEntries (listing entries) >>= _ = _
    rw [hfailed]
    refine mapM_eq_ok.2 ?_
    clear * -
    induction entries with
    | nil => rfl
    | cons entry entries ih =>
      cases hid : Batch.entryId entry with
      | error e => simpa [hid, Except.toOption] using ih
      | ok id => simpa [hid, Except.toOption] using ih
  · simp only [List.mem_filterMap, toOption_eq_some]

/-- There is such a service. -/
theorem answers_of_serve {s : EntryWise} {c : Call} (h : c.answer = .ok (s.serve c.request)) :
    s.Answers c := by
  obtain ⟨r, answer⟩ := c
  obtain rfl : answer = .ok (s.serve r) := h
  unfold Answers
  split
  · rename_i heq
    obtain rfl : r = _ := heq
    exact listsIdsOf_listing rfl
  · rename_i heq
    obtain rfl : r = _ := heq
    exact listsIdsOf_listing rfl
  · rename_i heq
    obtain rfl : r = _ := heq
    rfl
  · exact ⟨_, rfl⟩

/-! ## What a cleanup comes to -/

/-- The messages that a service accepts, if entries are sent for them: those whose id is in no entry
that it rejects. -/
def accepted (s : EntryWise) (queueUrl : Text) (entries : List Value) (ms : List Message) :
    List Message :=
  ms.filter fun m => !entries.any fun entry => s.rejects queueUrl entry && Batch.names entry m.id

/-- The passes that move messages of a queue, and what was moved. -/
def move (s : EntryWise) (queueUrl : Text) (ms : List Message) :
    List Request × Except Error (List Message) :=
  match Batch.route queueUrl ms (.ok (s.attributes queueUrl)) with
  | .error e => ([QueueClient.policyRequest queueUrl], .error e)
  | .ok none => ([QueueClient.policyRequest queueUrl], .ok [])
  | .ok (some (url, entries)) =>
    ([QueueClient.policyRequest queueUrl, .send (.text url) (.list entries)],
      .ok (s.accepted url entries ms))

/-- The passes that move messages of a queue and delete what was moved, and the error that ends them,
if one does. -/
def block (s : EntryWise) (queueUrl : Text) (ms : List Message) : List Request × Option Error :=
  match s.move queueUrl ms with
  | (passes, .error e) => (passes, some e)
  | (passes, .ok moved) => (passes ++ Batch.deletePass queueUrl moved, none)

/-- The passes for the messages of each group, up to the first error. -/
def redrive (s : EntryWise) : QueueGroups → List Request × Option Error
  | [] => ([], none)
  | (queueUrl, ms) :: rest =>
    match s.block queueUrl ms with
    | (passes, some e) => (passes, some e)
    | (passes, none) => (passes ++ (s.redrive rest).1, (s.redrive rest).2)

end EntryWise

namespace Batch

/-- The messages that succeeded, and those whose errors are not retryable, by queue. -/
def sorted (triage : Triage) (succeeded : List Message) (failed : List (Message × Error)) :
    Except Error (QueueGroups × QueueGroups) := do
  let final ← nonRetryable triage failed
  let groups ← QueueGroups.ofMessages succeeded
  let others ← QueueGroups.ofMessages final
  pure (groups, others)

end Batch

namespace EntryWise

/-- The passes of a cleanup, and the error that ends it, if one does. -/
def cleanup (s : EntryWise) (settings : Settings) (triage : Triage) (succeeded : List Message)
    (failed : List (Message × Error)) : List Request × Option Error :=
  match Batch.sorted triage succeeded failed with
  | .error e => ([], some e)
  | .ok (groups, others) =>
    if settings.deleteNonRetryable.truthy then (Batch.groupPasses (groups.joined others), none)
    else (Batch.groupPasses groups ++ (s.redrive others).1, (s.redrive others).2)

end EntryWise

/-! ## Calls to such a service -/

section Calls

variable {s : EntryWise} {c : Call} {entries : List Value} {url : Text}

theorem Call.ListsIdsOf.lists_iff (h : c.ListsIdsOf entries) {id : Text} :
    c.Lists id ↔ ∃ entry ∈ entries, Batch.names entry id = true := by
  obtain ⟨ids, hread, hids⟩ := h
  rw [← Batch.mem_failedIds_iff hread, hids]
  simp only [Batch.names_iff]

theorem EntryWise.Answers.of_delete (h : s.Answers c)
    (hr : c.request = .delete (.text url) (.list entries)) :
    c.ListsIdsOf (entries.filter (s.keeps url)) := by
  rw [Answers, hr] at h
  exact h

theorem EntryWise.Answers.of_send (h : s.Answers c)
    (hr : c.request = .send (.text url) (.list entries)) :
    c.ListsIdsOf (entries.filter (s.rejects url)) := by
  rw [Answers, hr] at h
  exact h

end Calls

namespace Batch

variable {s : EntryWise} {size : Size} {n : Nat} {u : Text} {ms : List Message}
  {groups : QueueGroups} {cs : List Call} {stop : Option Error}

/-- What the answers to sends do not list is what the service accepts. -/
theorem unlisted_eq_accepted (hs : ∀ c ∈ cs, s.Answers c)
    (hto : ∀ c ∈ cs, ∃ es, c.request = .send (.text u) (.list es)) :
    unlisted cs ms = s.accepted u (entriesOf cs) ms := by
  refine List.filter_congr fun m _ => ?_
  have hlists : (∃ c ∈ cs, c.Lists m.id) ↔
      ∃ entry ∈ entriesOf cs, s.rejects u entry = true ∧ names entry m.id = true := by
    have heach (c : Call) (hc : c ∈ cs) : c.Lists m.id ↔
        ∃ entry ∈ c.request.entries, s.rejects u entry = true ∧ names entry m.id = true := by
      obtain ⟨es, hr⟩ := hto c hc
      rw [((hs c hc).of_send hr).lists_iff, hr]
      simp [Request.entries, and_assoc]
    constructor
    · rintro ⟨c, hc, hlists⟩
      obtain ⟨entry, hentry, hrejected⟩ := (heach c hc).1 hlists
      exact ⟨entry, List.mem_flatMap.2 ⟨c, hc, hentry⟩, hrejected⟩
    · rintro ⟨entry, hentry, hrejected⟩
      obtain ⟨c, hc, hentry⟩ := List.mem_flatMap.1 hentry
      exact ⟨c, hc, (heach c hc).2 ⟨entry, hentry, hrejected⟩⟩
  rw [Bool.eq_iff_iff, decide_eq_true_eq, Bool.not_eq_true', ← Bool.not_eq_true, List.any_eq_true]
  simp only [Bool.and_eq_true]
  rw [← hlists]
  simp only [not_exists, not_and]

section Whole

variable (hstride : size.stride = .ok n) (hpos : 0 < n) (hn : n ≤ maxEntries)

include hstride hpos hn

/-- Deletes that are answered are all made. -/
theorem requests_of_groupsPlan {lists : List (List Value)}
    (h : Issued QueueClient.failedEntries (groupsPlan size groups) cs lists stop)
    (hs : ∀ c ∈ cs, s.Answers c) :
    stop = none ∧ cs.map Call.request = (groupPasses groups).flatMap (Request.cut n) := by
  have hread (c : Call) (hc : c ∈ cs) :
      ∃ failed, c.answer >>= QueueClient.failedEntries = .ok failed := by
    obtain ⟨group, -, es, hr, -⟩ := deletesOf_of_groupsPlan h hc
    obtain ⟨ids, hids, -⟩ := (hs c hc).of_delete hr
    exact Call.exists_failed hids
  rw [groupsPlan_eq hstride hpos hn] at h
  exact h.requests_eq_of_read hread

theorem requests_of_deletePlan {lists : List (List Value)}
    (h : Issued QueueClient.failedEntries (deletePlan size u ms) cs lists stop)
    (hs : ∀ c ∈ cs, s.Answers c) :
    stop = none ∧ cs.map Call.request = (deletePass u ms).flatMap (Request.cut n) := by
  have hgroup : groupsPlan size [(u, ms)] = deletePlan size u ms := List.flatMap_singleton ..
  have hpass : groupPasses [(u, ms)] = deletePass u ms := List.flatMap_singleton ..
  rw [← hgroup] at h
  rw [← hpass]
  exact requests_of_groupsPlan hstride hpos hn h hs

/-- **Moving messages comes to one send, however that is cut**, and moves what is accepted. -/
theorem Moving.requests_eq {x : Except Error (List Message)} (h : Moving size u ms cs x)
    (hs : ∀ c ∈ cs, s.Answers c) :
    x = (s.move u ms).2 ∧ cs.map Call.request = (s.move u ms).1.flatMap (Request.cut n) := by
  obtain ⟨answer, sends, rfl, hrouted⟩ := h.routed
  obtain ⟨hanswer, hsends⟩ := List.forall_mem_cons.1 hs
  obtain rfl : answer = .ok (s.attributes u) := hanswer
  have hdone {url : Text} {entries : List Value} {idss : List (List Value)} {stop : Option Error}
      (hissued : Issued failedIds (chunkPlan (.send (.text url)) entries size) sends idss stop) :
      stop = none ∧ sends.map Call.request =
        (chunks n entries).map fun es => .send (.text url) (.list es) := by
    have hread (c : Call) (hc : c ∈ sends) : ∃ ids, c.answer >>= failedIds = .ok ids := by
      obtain ⟨es, hr, -⟩ := exists_of_mem_chunkPlan (hissued.request_mem hc)
      obtain ⟨ids, hids, -⟩ := (hsends c hc).of_send hr
      exact ⟨ids, hids⟩
    rw [chunkPlan_eq hstride hpos hn] at hissued
    exact hissued.requests_eq_of_read hread
  unfold EntryWise.move
  generalize route u ms (.ok (s.attributes u)) = r at hrouted
  cases hrouted with
  | lost => exact ⟨rfl, rfl⟩
  | absent => exact ⟨rfl, rfl⟩
  | unsent hissued => cases (hdone hissued).1
  | sent hissued =>
    have hto (c : Call) (hc : c ∈ sends) : ∃ es, c.request = .send _ (.list es) :=
      have ⟨es, hr, _⟩ := exists_of_mem_chunkPlan (hissued.request_mem hc)
      ⟨es, hr⟩
    refine ⟨?_, ?_⟩
    · rw [unlisted_eq_accepted hsends hto, entriesOf_of_chunkPlan hissued fun _ => rfl]
    · rw [List.map_cons, (hdone hissued).2, List.flatMap_cons, List.flatMap_singleton]
      rfl

theorem Block.requests_eq (h : Block size u ms cs stop) (hs : ∀ c ∈ cs, s.Answers c) :
    stop = (s.block u ms).2 ∧ cs.map Call.request = (s.block u ms).1.flatMap (Request.cut n) := by
  unfold EntryWise.block
  cases h with
  | unmoved hmove =>
    obtain ⟨hend, hrequests⟩ := hmove.requests_eq hstride hpos hn hs
    generalize s.move u ms = moving at hend hrequests
    obtain ⟨passes, x⟩ := moving
    obtain rfl := hend
    exact ⟨rfl, hrequests⟩
  | moved hmove hdelete =>
    obtain ⟨hs, hs'⟩ := List.forall_mem_append.1 hs
    obtain ⟨hend, hrequests⟩ := hmove.requests_eq hstride hpos hn hs
    obtain ⟨rfl, hdeletes⟩ := requests_of_deletePlan hstride hpos hn hdelete hs'
    generalize s.move u ms = moving at hend hrequests
    obtain ⟨passes, x⟩ := moving
    obtain rfl := hend
    refine ⟨rfl, ?_⟩
    rw [List.map_append, List.flatMap_append, hrequests, hdeletes]

theorem Redriven.requests_eq (h : Redriven size groups cs stop) (hs : ∀ c ∈ cs, s.Answers c) :
    stop = (s.redrive groups).2 ∧
      cs.map Call.request = (s.redrive groups).1.flatMap (Request.cut n) := by
  induction h with
  | done => exact ⟨rfl, rfl⟩
  | @halted u ms _ _ _ hblock =>
    obtain ⟨hend, hrequests⟩ := hblock.requests_eq hstride hpos hn hs
    unfold EntryWise.redrive
    generalize s.block u ms = block at hend hrequests
    obtain ⟨passes, stop⟩ := block
    obtain rfl := hend
    exact ⟨rfl, hrequests⟩
  | @next u ms _ _ _ _ hblock _ ih =>
    obtain ⟨hs, hs'⟩ := List.forall_mem_append.1 hs
    obtain ⟨hend, hrequests⟩ := hblock.requests_eq hstride hpos hn hs
    obtain ⟨hstop, hothers⟩ := ih hs'
    unfold EntryWise.redrive
    generalize s.block u ms = block at hend hrequests
    obtain ⟨passes, stop⟩ := block
    obtain rfl := hend
    refine ⟨hstop, ?_⟩
    rw [List.map_append, List.flatMap_append, hrequests, hothers]

end Whole

section Reconciliation

variable {settings : Settings} {triage : Triage} {succeeded : List Message}
  {failed : List (Message × Error)} {t : List Event}

/-- Messages are sorted if every failure has a verdict, and the messages that are dealt with tell
their queues. -/
theorem sorted_eq_ok {others : QueueGroups}
    (h : sorted triage succeeded failed = .ok (groups, others)) :
    nonRetryable triage failed = .ok (finals triage failed) ∧
      QueueGroups.ofMessages succeeded = .ok groups ∧
      QueueGroups.ofMessages (finals triage failed) = .ok others := by
  obtain ⟨final, hfinal, h⟩ := bind_eq_ok.1 h
  obtain ⟨groups', hgroups, h⟩ := bind_eq_ok.1 h
  obtain ⟨others', hothers, h⟩ := bind_eq_ok.1 h
  obtain ⟨rfl, rfl⟩ := Prod.mk.inj (Except.ok.inj h)
  obtain rfl := nonRetryable_eq_ok hfinal
  exact ⟨hfinal, hgroups, hothers⟩

/-- Messages that cannot be sorted end a reconciliation before its first call. -/
theorem ends_reconcile_of_error {e : Error} {x : Except Error Unit}
    (hsorted : sorted triage succeeded failed = .error e)
    (h : (reconcile settings triage succeeded failed).Ends t x) : t = [] ∧ x = .error e := by
  unfold reconcile at h
  unfold sorted at hsorted
  obtain ⟨f, hf, rfl, rfl⟩ | ⟨final, hfinal, h⟩ := Run.ends_lift_bind.1 h
  · rw [hf] at hsorted
    obtain rfl := Except.error.inj hsorted
    exact ⟨rfl, rfl⟩
  rw [hfinal] at hsorted
  obtain ⟨f, hf, rfl, rfl⟩ | ⟨groups, hgroups, h⟩ := Run.ends_lift_bind.1 h
  · rw [hf] at hsorted
    obtain rfl := Except.error.inj hsorted
    exact ⟨rfl, rfl⟩
  rw [hgroups] at hsorted
  change (QueueGroups.ofMessages final >>= fun others => .ok (groups, others)) = _ at hsorted
  obtain ⟨f, hf, rfl, rfl⟩ | ⟨others, hothers, -⟩ := Run.ends_lift_bind.1 h
  · rw [hf] at hsorted
    obtain rfl := Except.error.inj hsorted
    exact ⟨rfl, rfl⟩
  · rw [hothers] at hsorted
    cases hsorted

/-- **A reconciliation comes to the same passes and the same end**, whatever their requests hold. -/
theorem requests_of_reconcile (hsize : settings.maxBatchSize.whole? = some n)
    (h : (reconcile settings triage succeeded failed).Ends t (endOf stop ()))
    (hs : ∀ c ∈ calls t, s.Answers c) :
    stop = (s.cleanup settings triage succeeded failed).2 ∧ (calls t).map Call.request =
      (s.cleanup settings triage succeeded failed).1.flatMap (Request.cut n) := by
  obtain ⟨hstride, hpos, hn⟩ := Settings.stride_of_whole hsize
  unfold EntryWise.cleanup
  cases hsorted : sorted triage succeeded failed with
  | error e =>
    obtain ⟨rfl, hend⟩ := ends_reconcile_of_error hsorted h
    cases stop with
    | none => cases hend
    | some f => exact ⟨congrArg some (Except.error.inj hend), rfl⟩
  | ok sorting =>
    obtain ⟨groups, others⟩ := sorting
    obtain ⟨hfinal, hgroups, hothers⟩ := sorted_eq_ok hsorted
    obtain ⟨stop', hreconciled, heq⟩ := reconciled_of_ends h
    obtain rfl : stop = stop' := by cases stop <;> cases stop' <;> cases heq <;> rfl
    have hsame {groups groups' : QueueGroups} {ms : List Message}
        (h : QueueGroups.ofMessages ms = .ok groups) (h' : groups'.Sorts ms) : groups' = groups :=
      h'.eq_byQueue.trans (QueueGroups.sorts_of_ofMessages h).eq_byQueue.symm
    generalize hcs : calls t = cs at hreconciled hs
    clear hcs heq h
    cases hreconciled with
    | undecided herror => cases herror.symm.trans hfinal
    | unlocated herror =>
      rcases herror with herror | herror
      · cases herror.symm.trans hgroups
      · cases herror.symm.trans hothers
    | deleting hflag hgroups' hothers' hissued =>
      obtain rfl := hsame hgroups hgroups'
      obtain rfl := hsame hothers hothers'
      simp only [hflag, if_true]
      exact requests_of_groupsPlan hstride hpos hn hissued hs
    | halted hflag hgroups' _ hissued =>
      cases (requests_of_groupsPlan hstride hpos hn hissued hs).1
    | redriving hflag hgroups' hothers' hissued hredriven =>
      obtain rfl := hsame hgroups hgroups'
      obtain rfl := hsame hothers hothers'
      obtain ⟨hs, hs'⟩ := List.forall_mem_append.1 hs
      obtain ⟨-, hdeletes⟩ := requests_of_groupsPlan hstride hpos hn hissued hs
      obtain ⟨hend, hothers⟩ := hredriven.requests_eq hstride hpos hn hs'
      simp only [hflag, Bool.false_eq_true, if_false]
      refine ⟨hend, ?_⟩
      rw [List.map_append, List.flatMap_append, hdeletes, hothers]

end Reconciliation

/-! ## No pass deletes nothing -/

theorem isFilled_of_deletePass : ∀ pass ∈ deletePass u ms, pass.IsFilled := by
  intro pass hpass
  unfold deletePass at hpass
  split at hpass
  · cases hpass
  · rename_i hne
    obtain rfl := List.mem_singleton.1 hpass
    exact fun hnil => hne (List.isEmpty_iff.2 (List.map_eq_nil_iff.1 hnil))

theorem isFilled_of_groupPasses : ∀ pass ∈ groupPasses groups, pass.IsFilled := by
  intro pass hpass
  obtain ⟨group, -, hpass⟩ := List.mem_flatMap.1 hpass
  exact isFilled_of_deletePass pass hpass

end Batch

namespace EntryWise

variable (s : EntryWise)

theorem isFilled_move (u : Text) (ms : List Message) :
    ∀ pass ∈ (s.move u ms).1, pass.IsFilled := by
  unfold move
  split <;> simp [QueueClient.policyRequest, Request.IsFilled]

theorem isFilled_block (u : Text) (ms : List Message) :
    ∀ pass ∈ (s.block u ms).1, pass.IsFilled := by
  have hmove := s.isFilled_move u ms
  unfold block
  generalize s.move u ms = moving at hmove
  obtain ⟨passes, x⟩ := moving
  cases x with
  | error e => exact hmove
  | ok moved => exact List.forall_mem_append.2 ⟨hmove, Batch.isFilled_of_deletePass⟩

theorem isFilled_redrive (groups : QueueGroups) :
    ∀ pass ∈ (s.redrive groups).1, pass.IsFilled := by
  induction groups with
  | nil => exact nofun
  | cons group rest ih =>
    obtain ⟨u, ms⟩ := group
    have hblock := s.isFilled_block u ms
    unfold redrive
    generalize s.block u ms = block at hblock
    obtain ⟨passes, stop⟩ := block
    cases stop with
    | some e => exact hblock
    | none => exact List.forall_mem_append.2 ⟨hblock, ih⟩

theorem isFilled_cleanup (settings : Settings) (triage : Triage) (succeeded : List Message)
    (failed : List (Message × Error)) :
    ∀ pass ∈ (s.cleanup settings triage succeeded failed).1, pass.IsFilled := by
  unfold cleanup
  split
  · exact nofun
  · split
    · exact Batch.isFilled_of_groupPasses
    · exact List.forall_mem_append.2 ⟨Batch.isFilled_of_groupPasses, s.isFilled_redrive _⟩

end EntryWise

end PartialBatch
