/-
# The calls of a reconciliation

What reconciling the queues calls, as relations that follow its steps. Deleting is a plan
(`deletePlan`), fixed before it begins. Moving the failures of a queue is not: what is sent
depends on the redrive policy in the answer to the first call, and what is deleted after it
depends on the answers to the sends.

| relation | steps |
| --- | --- |
| `Moving` | the redrive policy of a queue, then the sends to its dead-letter queue |
| `Block` | `Moving`, then the deletes of what was moved |
| `Redriven` | a `Block` for each queue |
| `Reconciled` | the deletes of the successes, then `Redriven`; or deletes only |

Each ends in the error that cut it short, if one did. `reconciled_of_ends` says that every course
of `reconcile` makes the calls of a `Reconciled`; what is proved about the calls of a
reconciliation is proved from there.
-/

import PartialBatch.Proofs.Batch.Groups
import PartialBatch.Proofs.Queue.Plan
import PartialBatch.Proofs.Results

namespace PartialBatch
namespace Batch

variable {t : List Event} {size : Size} {queueUrl : Text}

/-- What is ended in after an error, if there is one, and otherwise. -/
def endOf {α : Type} (stop : Option Error) (a : α) : Except Error α :=
  match stop with
  | none => .ok a
  | some e => .error e

/-! ## Deleting -/

/-- Whether every course of a run follows a plan, reading what its answers list as failed. -/
def Follows (r : Run Unit) (plan : Plan) : Prop :=
  ∀ {t x}, r.Ends t x → ∃ lists stop, Issued QueueClient.failedEntries plan (calls t) lists stop ∧
    x = endOf stop ()

/-- One run after another follows both plans, one after the other. -/
theorem Follows.bind {r : Run Unit} {f : Unit → Run Unit} {p q : Plan} (hr : Follows r p)
    (hf : Follows (f ()) q) : Follows (r >>= f) (p ++ q) := by
  intro t x h
  obtain ⟨e, h₁, rfl⟩ | ⟨t₁, _, t₂, h₁, h₂, rfl⟩ := Run.ends_bind.1 h
  · obtain ⟨lists, stop, hissued, heq⟩ := hr h₁
    cases stop with
    | none => cases heq
    | some e' => exact ⟨lists, some e', hissued.append_of_stop, heq⟩
  · obtain ⟨lists, stop, hissued, heq⟩ := hr h₁
    cases stop with
    | some e' => cases heq
    | none =>
      obtain ⟨others, stop, hothers, rfl⟩ := hf h₂
      rw [calls_append]
      exact ⟨_, stop, hissued.append hothers, rfl⟩

/-- A run without calls and errors follows the empty plan. -/
theorem follows_nil {r : Run Unit} (h : ∀ {t x}, r.Ends t x → calls t = [] ∧ x = .ok ()) :
    Follows r [] := by
  intro t x ht
  obtain ⟨hcalls, rfl⟩ := h ht
  rw [hcalls]
  exact ⟨[], none, .done, rfl⟩

theorem follows_log {level : Log.Level} {event : Text} {fields : Entries} :
    Follows (Run.log level event fields) [] := by
  refine follows_nil fun h => ?_
  obtain ⟨rfl, rfl⟩ := Run.ends_log.1 h
  exact ⟨rfl, rfl⟩

/-- The plan to delete messages from a queue. -/
def deletePlan (size : Size) (queueUrl : Text) (ms : List Message) : Plan :=
  if ms.isEmpty then [] else chunkPlan (.delete (.text queueUrl)) (ms.map Message.deleteEntry) size

/-- The plan to delete the messages of groups. -/
def groupsPlan (size : Size) (groups : QueueGroups) : Plan :=
  groups.flatMap fun group => deletePlan size group.1 group.2

theorem groupsPlan_append (size : Size) (groups others : QueueGroups) :
    groupsPlan size (groups ++ others) = groupsPlan size groups ++ groupsPlan size others :=
  List.flatMap_append

theorem follows_deleteChunks {ess : List (List Value)} :
    Follows (deleteChunks queueUrl ess) (ess.map (chunkRequest (.delete (.text queueUrl)))) := by
  induction ess with
  | nil => exact follows_nil fun h => by simpa using And.imp_left (congrArg calls) h
  | cons es rest ih =>
    intro t x h
    rw [List.map_cons]
    unfold deleteChunks at h
    obtain ⟨e, hdelete, rfl⟩ | ⟨t₁, failed, t₂, hdelete, hrest, rfl⟩ := Run.ends_bind.1 h
    · obtain ⟨e', hcount, hcalls, heq⟩ | ⟨n, answer, hcount, hcalls, heq⟩ :=
        QueueClient.ends_batch hdelete
      · obtain rfl := Except.error.inj heq
        rw [hcalls, chunkRequest, hcount]
        exact ⟨[], some e, .refused, rfl⟩
      · rw [hcalls, chunkRequest, hcount]
        exact ⟨[], some e, .failed heq.symm, rfl⟩
    · obtain ⟨e', hcount, hcalls, heq⟩ | ⟨n, answer, hcount, hcalls, heq⟩ :=
        QueueClient.ends_batch hdelete
      · cases heq
      · obtain ⟨t₃, hrest, hcalls₂⟩ := ends_optional_log hrest
        obtain ⟨others, stop, hissued, rfl⟩ := ih hrest
        rw [calls_append, hcalls, hcalls₂, chunkRequest, hcount]
        exact ⟨failed :: others, stop, .next heq.symm hissued, rfl⟩

/-- Deleting messages from a queue follows the plan for it. -/
theorem follows_deleteMessages {ms : List Message} :
    Follows (deleteMessages size queueUrl ms) (deletePlan size queueUrl ms) := by
  unfold deleteMessages deletePlan
  split
  · exact follows_nil fun h => by simpa using And.imp_left (congrArg calls) h
  · intro t x h
    rw [chunkPlan]
    obtain ⟨e, he, rfl, rfl⟩ | ⟨ess, hess, h⟩ := Run.ends_lift_bind.1 h
    · rw [he]
      exact ⟨[], some e, .refused, rfl⟩
    · rw [hess]
      simpa using (follows_deleteChunks.bind follows_log) h

/-- Deleting the messages of groups follows the plan for them. -/
theorem follows_deleteGroups {groups : QueueGroups} :
    Follows (deleteGroups size groups) (groupsPlan size groups) := by
  induction groups with
  | nil => exact follows_nil fun h => by simpa using And.imp_left (congrArg calls) h
  | cons group rest ih => exact follows_deleteMessages.bind ih

/-! ## Moving to the dead-letter queue -/

/-- The ids that an answer lists as failed. -/
def failedIds (answer : Value) : Except Error (List Value) := do
  (← QueueClient.failedEntries answer).mapM entryId

theorem bind_failedIds (answer : Except Error Value) :
    answer >>= failedIds = (answer >>= QueueClient.failedEntries) >>= (·.mapM entryId) := by
  cases answer <;> rfl

/-- The ids that are read from the answer of a call are those that its entries name. -/
theorem mem_failedIds_iff_entry {c : Call} {ids : List Value} {id : Value}
    (hread : c.answer >>= failedIds = .ok ids) :
    id ∈ ids ↔ ∃ entry ∈ c.failed, entryId entry = .ok id := by
  rw [bind_failedIds] at hread
  obtain ⟨entries, hfailed, hread⟩ := bind_eq_ok.1 hread
  have hmap : entries.map entryId = ids.map .ok := mapM_eq_ok.1 hread
  unfold Call.failed
  rw [hfailed, ← List.mem_map_of_injective (f := Except.ok) fun _ _ => Except.ok.inj, ← hmap,
    List.mem_map]

/-- The ids that are read from the answer of a call are those that it lists. -/
theorem mem_failedIds_iff {c : Call} {ids : List Value} {id : Text}
    (hread : c.answer >>= failedIds = .ok ids) : .text id ∈ ids ↔ c.Lists id := by
  rw [mem_failedIds_iff_entry hread]
  simp [Call.Lists]

/-- The ids that were read from answers are those that entries of the answers name. -/
theorem mem_flatten_iff_entry {idss : List (List Value)} {plan : Plan} {cs : List Call}
    {id : Value} (h : Issued failedIds plan cs idss none) :
    id ∈ idss.flatten ↔ ∃ c ∈ cs, ∃ entry ∈ c.failed, entryId entry = .ok id := by
  have hread := h.read_eq
  constructor
  · intro hid
    obtain ⟨ids, hmem, hid⟩ := List.mem_flatten.1 hid
    have hin : .ok ids ∈ cs.map fun c => c.answer >>= failedIds := by
      rw [hread]
      exact List.mem_map_of_mem hmem
    obtain ⟨c, hc, heq⟩ := List.mem_map.1 hin
    exact ⟨c, hc, (mem_failedIds_iff_entry heq).1 hid⟩
  · rintro ⟨c, hc, hentry⟩
    have hin : (c.answer >>= failedIds) ∈ idss.map Except.ok := by
      rw [← hread]
      exact List.mem_map_of_mem (f := fun c : Call => c.answer >>= failedIds) hc
    obtain ⟨ids, hmem, heq⟩ := List.mem_map.1 hin
    exact List.mem_flatten.2 ⟨ids, hmem, (mem_failedIds_iff_entry heq.symm).2 hentry⟩

/-- The ids that were read from answers are those that the answers list. -/
theorem mem_flatten_iff_lists {idss : List (List Value)} {plan : Plan} {cs : List Call}
    {id : Text} (h : Issued failedIds plan cs idss none) :
    .text id ∈ idss.flatten ↔ ∃ c ∈ cs, c.Lists id := by
  rw [mem_flatten_iff_entry h]
  simp [Call.Lists]

/-- Collecting ids puts those that entries name into the set, one after another. -/
theorem addIds_eq (ids entries : List Value) :
    addIds ids entries = (entries.mapM entryId).map (·.foldl Value.insertMember ids) := by
  induction entries generalizing ids with
  | nil => rfl
  | cons entry rest ih =>
    rw [List.mapM_cons]
    unfold addIds
    cases entryId entry with
    | error e => rfl
    | ok id =>
      change addIds (Value.insertMember ids id) rest = _
      rw [ih]
      change _ = Except.map _ (List.mapM entryId rest >>= fun others => .ok (id :: others))
      cases List.mapM entryId rest with
      | error e => rfl
      | ok others => rfl

theorem issued_of_sendChunks {ids : List Value} {ess : List (List Value)}
    {x : Except Error (List Value)} (h : (sendChunks queueUrl ids ess).Ends t x) :
    ∃ idss stop, Issued failedIds (ess.map (chunkRequest (.send (.text queueUrl)))) (calls t)
      idss stop ∧ x = endOf stop (idss.flatten.foldl Value.insertMember ids) := by
  induction ess generalizing t ids with
  | nil =>
    obtain ⟨rfl, rfl⟩ := Run.ends_pure.1 h
    exact ⟨[], none, .done, rfl⟩
  | cons es rest ih =>
    rw [List.map_cons]
    unfold sendChunks at h
    obtain ⟨e, hsend, rfl⟩ | ⟨t₁, failed, t₂, hsend, hrest, rfl⟩ := Run.ends_bind.1 h
    · obtain ⟨e', hcount, hcalls, heq⟩ | ⟨n, answer, hcount, hcalls, heq⟩ :=
        QueueClient.ends_batch hsend
      · obtain rfl := Except.error.inj heq
        rw [hcalls, chunkRequest, hcount]
        exact ⟨[], some e, .refused, rfl⟩
      · rw [hcalls, chunkRequest, hcount]
        have hread : answer >>= failedIds = .error e := by rw [bind_failedIds, ← heq]; rfl
        exact ⟨[], some e, .failed hread, rfl⟩
    · obtain ⟨e', hcount, hcalls, heq⟩ | ⟨n, answer, hcount, hcalls, heq⟩ :=
        QueueClient.ends_batch hsend
      · cases heq
      · have hread : answer >>= failedIds = failed.mapM entryId := by
          rw [bind_failedIds, ← heq]; rfl
        obtain ⟨t₃, hrest, hcalls₂⟩ := ends_optional_log hrest
        rw [calls_append, hcalls, hcalls₂, chunkRequest, hcount]
        rw [addIds_eq] at hrest
        obtain ⟨e, he, rfl, rfl⟩ | ⟨ids', hids, hrest⟩ := Run.ends_lift_bind.1 hrest
        · cases hmap : failed.mapM entryId with
          | error e' =>
            rw [hmap] at he hread
            obtain rfl := Except.error.inj he
            exact ⟨[], some e', .failed hread, rfl⟩
          | ok new => rw [hmap] at he; cases he
        · cases hmap : failed.mapM entryId with
          | error e => rw [hmap] at hids; cases hids
          | ok new =>
            rw [hmap] at hids hread
            obtain rfl := Except.ok.inj hids
            obtain ⟨others, stop, hissued, rfl⟩ := ih hrest
            exact ⟨new :: others, stop, .next hread hissued, by
              rw [List.flatten_cons, List.foldl_append]⟩

/-- What a set holds after members were put in. -/
theorem mem_foldl_insertMember {ids new : List Value} {v : Value} :
    v ∈ new.foldl Value.insertMember ids ↔ v ∈ ids ∨ v ∈ new := by
  induction new generalizing ids with
  | nil => simp
  | cons w rest ih =>
    have hinsert : v ∈ Value.insertMember ids w ↔ v ∈ ids ∨ v = w := by
      unfold Value.insertMember
      split
      · rename_i h
        exact ⟨.inl, fun hv => hv.elim id fun heq => heq ▸ h.1⟩
      · simp
    rw [List.foldl_cons, ih, hinsert, List.mem_cons, or_assoc]

/-- The messages whose ids no answer lists as failed. -/
def unlisted (cs : List Call) (ms : List Message) : List Message :=
  ms.filter fun m => ∀ c ∈ cs, ¬c.Lists m.id

theorem mem_unlisted {cs : List Call} {ms : List Message} {m : Message} :
    m ∈ unlisted cs ms ↔ m ∈ ms ∧ ∀ c ∈ cs, ¬c.Lists m.id := by
  rw [unlisted, List.mem_filter, decide_eq_true_eq]

/-- What moving the messages of a queue calls: its redrive policy is read, and if that names a
dead-letter queue and all messages have send entries, these are sent there. -/
inductive Moving (size : Size) (queueUrl : Text) (ms : List Message) :
    List Call → Except Error (List Message) → Prop
  /-- The redrive policy cannot be read. -/
  | unread {answer : Except Error Value} {e : Error}
      (hpolicy : answer >>= QueueClient.policyIn queueUrl = .error e) :
      Moving size queueUrl ms [⟨QueueClient.policyRequest queueUrl, answer⟩] (.error e)
  /-- There is no dead-letter queue. -/
  | absent {answer : Value} (hpolicy : QueueClient.policyIn queueUrl answer = .ok none) :
      Moving size queueUrl ms [⟨QueueClient.policyRequest queueUrl, .ok answer⟩] (.ok [])
  /-- The dead-letter queue has no URL. -/
  | unusable {answer : Value} {policy : RedrivePolicy} {e : Error}
      (hpolicy : QueueClient.policyIn queueUrl answer = .ok (some policy))
      (hurl : policy.deadLetterUrl = .error e) :
      Moving size queueUrl ms [⟨QueueClient.policyRequest queueUrl, .ok answer⟩] (.error e)
  /-- A message has no send entry. -/
  | unsendable {answer : Value} {policy : RedrivePolicy} {deadLetterUrl : Text} {e : Error}
      (hpolicy : QueueClient.policyIn queueUrl answer = .ok (some policy))
      (hurl : policy.deadLetterUrl = .ok deadLetterUrl)
      (hentries : Message.sendEntries ms = .error e) :
      Moving size queueUrl ms [⟨QueueClient.policyRequest queueUrl, .ok answer⟩] (.error e)
  /-- The sends end in an error. -/
  | unsent {answer : Value} {policy : RedrivePolicy} {deadLetterUrl : Text}
      {entries : List Value} {cs : List Call} {idss : List (List Value)} {e : Error}
      (hpolicy : QueueClient.policyIn queueUrl answer = .ok (some policy))
      (hurl : policy.deadLetterUrl = .ok deadLetterUrl)
      (hentries : Message.sendEntries ms = .ok entries)
      (hissued : Issued failedIds (chunkPlan (.send (.text deadLetterUrl)) entries size) cs
        idss (some e)) :
      Moving size queueUrl ms (⟨QueueClient.policyRequest queueUrl, .ok answer⟩ :: cs) (.error e)
  /-- All messages are sent; those that no answer lists as failed were moved. -/
  | sent {answer : Value} {policy : RedrivePolicy} {deadLetterUrl : Text}
      {entries : List Value} {cs : List Call} {idss : List (List Value)}
      (hpolicy : QueueClient.policyIn queueUrl answer = .ok (some policy))
      (hurl : policy.deadLetterUrl = .ok deadLetterUrl)
      (hentries : Message.sendEntries ms = .ok entries)
      (hissued : Issued failedIds (chunkPlan (.send (.text deadLetterUrl)) entries size) cs
        idss none) :
      Moving size queueUrl ms (⟨QueueClient.policyRequest queueUrl, .ok answer⟩ :: cs)
        (.ok (unlisted cs ms))

/-- Moving the messages of a queue makes the calls of a `Moving`. -/
theorem moving_of_moveMessages {ms : List Message} {x : Except Error (List Message)}
    (h : (moveMessages size queueUrl ms).Ends t x) : Moving size queueUrl ms (calls t) x := by
  unfold moveMessages at h
  obtain ⟨e, hread, rfl⟩ | ⟨t₁, policy?, t₂, hread, hrest, rfl⟩ := Run.ends_bind.1 h
  · obtain ⟨answer, hcalls, heq⟩ := QueueClient.ends_redrivePolicy hread
    rw [hcalls]
    exact .unread heq.symm
  obtain ⟨answer, hcalls, heq⟩ := QueueClient.ends_redrivePolicy hread
  cases answer with
  | error e => cases heq
  | ok answer =>
    have hpolicy : QueueClient.policyIn queueUrl answer = .ok policy? := heq.symm
    rw [calls_append, hcalls]
    cases policy? with
    | none =>
      obtain ⟨rest, rfl, rfl, rfl⟩ := Run.ends_log_bind.1 hrest
      exact .absent hpolicy
    | some policy =>
      obtain ⟨e, hurl, rfl, rfl⟩ | ⟨deadLetterUrl, hurl, hrest⟩ := Run.ends_lift_bind.1 hrest
      · exact .unusable hpolicy hurl
      obtain ⟨e, hentries, rfl, rfl⟩ | ⟨entries, hentries, hrest⟩ := Run.ends_lift_bind.1 hrest
      · exact .unsendable hpolicy hurl hentries
      obtain ⟨e, hchunk, rfl, rfl⟩ | ⟨ess, hchunk, hrest⟩ := Run.ends_lift_bind.1 hrest
      · have hissued : Issued failedIds (chunkPlan (.send (.text deadLetterUrl)) entries size)
            [] [] (some e) := by
          rw [chunkPlan, hchunk]
          exact .refused
        exact .unsent hpolicy hurl hentries hissued
      have hplan : chunkPlan (.send (.text deadLetterUrl)) entries size =
          ess.map (chunkRequest (.send (.text deadLetterUrl))) := by rw [chunkPlan, hchunk]
      obtain ⟨e, hsend, rfl⟩ | ⟨t₃, ids, t₄, hsend, hlog, rfl⟩ := Run.ends_bind.1 hrest
      · obtain ⟨idss, stop, hissued, heq⟩ := issued_of_sendChunks hsend
        cases stop with
        | none => cases heq
        | some e' =>
          obtain rfl := Except.error.inj heq
          exact .unsent hpolicy hurl hentries (hplan ▸ hissued)
      · obtain ⟨idss, stop, hissued, heq⟩ := issued_of_sendChunks hsend
        obtain ⟨rest, rfl, rfl, rfl⟩ := Run.ends_log_bind.1 hlog
        cases stop with
        | some e => cases heq
        | none =>
          obtain rfl := Except.ok.inj heq
          have hmoved : (ms.filter fun m => Value.text m.id ∉
              idss.flatten.foldl Value.insertMember []) = unlisted (calls t₃) ms := by
            refine List.filter_congr fun m _ => decide_eq_decide.2 ?_
            rw [mem_foldl_insertMember, mem_flatten_iff_lists hissued]
            simp
          rw [hmoved]
          simpa using Moving.sent hpolicy hurl hentries (hplan ▸ hissued)

/-- What dealing with the failures of one queue calls: they are moved, and those that were moved
are deleted. -/
inductive Block (size : Size) (queueUrl : Text) (ms : List Message) :
    List Call → Option Error → Prop
  /-- The messages cannot all be sent. -/
  | unmoved {cs : List Call} {e : Error} (hmove : Moving size queueUrl ms cs (.error e)) :
      Block size queueUrl ms cs (some e)
  /-- What was moved is deleted, up to the first error. -/
  | moved {moved : List Message} {cs ds : List Call} {lists : List (List Value)}
      {stop : Option Error} (hmove : Moving size queueUrl ms cs (.ok moved))
      (hdelete : Issued QueueClient.failedEntries (deletePlan size queueUrl moved) ds lists stop) :
      Block size queueUrl ms (cs ++ ds) stop

/-- What dealing with the failures of each queue calls: one block after another. -/
inductive Redriven (size : Size) : QueueGroups → List Call → Option Error → Prop
  | done : Redriven size [] [] none
  | halted {queueUrl : Text} {ms : List Message} {groups : QueueGroups} {cs : List Call}
      {e : Error} (hblock : Block size queueUrl ms cs (some e)) :
      Redriven size ((queueUrl, ms) :: groups) cs (some e)
  | next {queueUrl : Text} {ms : List Message} {groups : QueueGroups} {cs ds : List Call}
      {stop : Option Error} (hblock : Block size queueUrl ms cs none)
      (rest : Redriven size groups ds stop) :
      Redriven size ((queueUrl, ms) :: groups) (cs ++ ds) stop

/-- Dealing with the failures of each queue makes the calls of a `Redriven`. -/
theorem redriven_of_moveGroups {groups : QueueGroups} {x : Except Error Unit}
    (h : (moveGroups size groups).Ends t x) :
    ∃ stop, Redriven size groups (calls t) stop ∧ x = endOf stop () := by
  induction groups generalizing t with
  | nil =>
    obtain ⟨rfl, rfl⟩ := Run.ends_pure.1 h
    exact ⟨none, .done, rfl⟩
  | cons group rest ih =>
    obtain ⟨url, ms⟩ := group
    obtain ⟨e, hmove, rfl⟩ | ⟨t₁, moved, t₂, hmove, hrest, rfl⟩ := Run.ends_bind.1 h
    · exact ⟨some e, .halted (.unmoved (moving_of_moveMessages hmove)), rfl⟩
    have hmoving := moving_of_moveMessages hmove
    rw [calls_append]
    obtain ⟨e, hdelete, rfl⟩ | ⟨t₃, _, t₄, hdelete, hothers, rfl⟩ := Run.ends_bind.1 hrest
    · obtain ⟨lists, stop, hissued, heq⟩ := follows_deleteMessages hdelete
      cases stop with
      | none => cases heq
      | some e' => exact ⟨some e', .halted (.moved hmoving hissued), heq⟩
    · obtain ⟨lists, stop, hissued, heq⟩ := follows_deleteMessages hdelete
      cases stop with
      | some e' => cases heq
      | none =>
        obtain ⟨stop, hredriven, rfl⟩ := ih hothers
        rw [calls_append, ← List.append_assoc]
        exact ⟨stop, .next (.moved hmoving hissued) hredriven, rfl⟩

/-! ## The whole reconciliation -/

/-- Whether an error is known to be not retryable. -/
def isFinal (triage : Triage) (e : Error) : Bool :=
  match triage.isNonRetryable e with
  | .ok final => final
  | .error _ => false

@[simp] theorem isFinal_iff {triage : Triage} {e : Error} :
    isFinal triage e = true ↔ triage.isNonRetryable e = .ok true := by
  unfold isFinal
  cases triage.isNonRetryable e with
  | error e => simp
  | ok final => simp

/-- The failed messages whose errors are not retryable. -/
def finals (triage : Triage) (failed : List (Message × Error)) : List Message :=
  (failed.filter fun f => isFinal triage f.2).map Prod.fst

/-- If every error has a verdict, the messages that are not left are `finals`. -/
theorem nonRetryable_eq_ok {triage : Triage} {failed : List (Message × Error)}
    {final : List Message} (h : nonRetryable triage failed = .ok final) :
    final = finals triage failed := by
  induction failed generalizing final with
  | nil => exact (Except.ok.inj h).symm
  | cons f rest ih =>
    obtain ⟨m, e⟩ := f
    unfold nonRetryable at h
    cases he : triage.isNonRetryable e with
    | error e' => rw [he] at h; cases h
    | ok b =>
      cases hrest : nonRetryable triage rest with
      | error e' => rw [he, hrest] at h; cases h
      | ok others =>
        rw [he, hrest] at h
        obtain rfl := Except.ok.inj h
        obtain rfl := ih hrest
        cases b <;> simp [finals, isFinal, he]

/-- What a reconciliation calls. -/
inductive Reconciled (settings : Settings) (triage : Triage) (succeeded : List Message)
    (failed : List (Message × Error)) : List Call → Option Error → Prop
  /-- An error has no verdict. -/
  | undecided {e : Error} (herror : nonRetryable triage failed = .error e) :
      Reconciled settings triage succeeded failed [] (some e)
  /-- A message to delete or to move tells no queue. -/
  | unlocated {e : Error} (herror : QueueGroups.ofMessages succeeded = .error e ∨
        QueueGroups.ofMessages (finals triage failed) = .error e) :
      Reconciled settings triage succeeded failed [] (some e)
  /-- What is not retryable is deleted, together with the successes of its queue if it has any. -/
  | deleting {groups others : QueueGroups} {cs : List Call} {lists : List (List Value)}
      {stop : Option Error} (hflag : settings.deleteNonRetryable.truthy = true)
      (hgroups : groups.Sorts succeeded) (hothers : others.Sorts (finals triage failed))
      (hissued : Issued QueueClient.failedEntries (groupsPlan settings.maxBatchSize
        ((groups.map fun g => (g.1, g.2 ++ others.get g.1)) ++ others.without groups)) cs
        lists stop) :
      Reconciled settings triage succeeded failed cs stop
  /-- The successes cannot all be deleted. -/
  | halted {groups others : QueueGroups} {cs : List Call} {lists : List (List Value)} {e : Error}
      (hflag : settings.deleteNonRetryable.truthy = false)
      (hgroups : groups.Sorts succeeded) (hothers : others.Sorts (finals triage failed))
      (hissued : Issued QueueClient.failedEntries (groupsPlan settings.maxBatchSize groups) cs
        lists (some e)) :
      Reconciled settings triage succeeded failed cs (some e)
  /-- The successes are deleted, and what is not retryable is moved. -/
  | redriving {groups others : QueueGroups} {cs ds : List Call} {lists : List (List Value)}
      {stop : Option Error} (hflag : settings.deleteNonRetryable.truthy = false)
      (hgroups : groups.Sorts succeeded) (hothers : others.Sorts (finals triage failed))
      (hissued : Issued QueueClient.failedEntries (groupsPlan settings.maxBatchSize groups) cs
        lists none)
      (hredriven : Redriven settings.maxBatchSize others ds stop) :
      Reconciled settings triage succeeded failed (cs ++ ds) stop

/-- **Reconciling makes the calls of a `Reconciled`**, and ends as it does. -/
theorem reconciled_of_ends {settings : Settings} {triage : Triage} {succeeded : List Message}
    {failed : List (Message × Error)} {x : Except Error Unit}
    (h : (reconcile settings triage succeeded failed).Ends t x) :
    ∃ stop, Reconciled settings triage succeeded failed (calls t) stop ∧ x = endOf stop () := by
  unfold reconcile at h
  obtain ⟨e, he, rfl, rfl⟩ | ⟨final, hfinal, h⟩ := Run.ends_lift_bind.1 h
  · exact ⟨some e, .undecided he, rfl⟩
  obtain rfl := nonRetryable_eq_ok hfinal
  obtain ⟨e, he, rfl, rfl⟩ | ⟨groups, hgroups, h⟩ := Run.ends_lift_bind.1 h
  · exact ⟨some e, .unlocated (.inl he), rfl⟩
  obtain ⟨e, he, rfl, rfl⟩ | ⟨others, hothers, h⟩ := Run.ends_lift_bind.1 h
  · exact ⟨some e, .unlocated (.inr he), rfl⟩
  replace hgroups := QueueGroups.sorts_of_ofMessages hgroups
  replace hothers := QueueGroups.sorts_of_ofMessages hothers
  split at h
  · rename_i hflag
    obtain ⟨lists, stop, hissued, heq⟩ :=
      follows_deleteGroups.bind (follows_deleteGroups.bind (follows_nil fun hlog => by
        obtain ⟨rest, hlast, hcalls⟩ := ends_optional_log hlog
        rw [hcalls]
        exact ends_last_log hlast)) h
    rw [List.append_nil, ← groupsPlan_append] at hissued
    exact ⟨stop, .deleting hflag hgroups hothers hissued, heq⟩
  · rename_i hflag
    replace hflag := Bool.eq_false_iff.2 hflag
    obtain ⟨e, hdelete, rfl⟩ | ⟨t₁, _, t₂, hdelete, hrest, rfl⟩ := Run.ends_bind.1 h
    · obtain ⟨lists, stop, hissued, heq⟩ := follows_deleteGroups hdelete
      cases stop with
      | none => cases heq
      | some e' => exact ⟨some e', .halted hflag hgroups hothers hissued, heq⟩
    obtain ⟨lists, stop, hissued, heq⟩ := follows_deleteGroups hdelete
    cases stop with
    | some e' => cases heq
    | none =>
      rw [calls_append]
      obtain ⟨e, hmove, rfl⟩ | ⟨t₃, _, t₄, hmove, hlog, rfl⟩ := Run.ends_bind.1 hrest
      · obtain ⟨stop, hredriven, heq⟩ := redriven_of_moveGroups hmove
        exact ⟨stop, .redriving hflag hgroups hothers hissued hredriven, heq⟩
      · obtain ⟨stop, hredriven, heq⟩ := redriven_of_moveGroups hmove
        obtain ⟨hnil, rfl⟩ := ends_last_log hlog
        rw [calls_append, hnil, List.append_nil]
        exact ⟨stop, .redriving hflag hgroups hothers hissued hredriven, heq⟩

end Batch
end PartialBatch
