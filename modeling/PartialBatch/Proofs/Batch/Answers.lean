/-
# Answers in order

A plan is cut short where a request is refused, or where an answer cannot be read. With a size that
is a whole number no request is refused (`accepted_of_chunkPlan`), and answers in order can be read:

| request | its answer is in order if it is an object with |
| --- | --- |
| delete, send | under `Failed` nothing, null, or a list of objects that have a text for an id |
| attributes | no redrive policy, or one that names a queue |

So a plan whose requests are accepted and whose answers are in order is done
(`Issued.stop_eq_none`).
-/

import PartialBatch.Proofs.Batch.Blocks

namespace PartialBatch

/-- Whether an entry of an answer is an object with a text for its id. -/
def Value.hasTextId : Value → Bool
  | .object es => match Entries.get? es "Id" with
    | some (.text _) => true
    | _ => false
  | _ => false

namespace QueueClient

/-- Whether an answer lists in order which entries failed. -/
def listsInOrder : Value → Bool
  | .object es => match Entries.get? es "Failed" with
    | none | some .null => true
    | some (.list vs) => vs.all Value.hasTextId
    | _ => false
  | _ => false

/-- Whether an answer tells no redrive policy of a queue, or one that names a queue. -/
def policyInOrder (queueUrl : Text) (answer : Value) : Bool :=
  match policyIn queueUrl answer with
  | .ok none => true
  | .ok (some policy) => (QueueAddress.ofArn? policy.target).isSome
  | .error _ => false

end QueueClient

/-- Whether a call has an answer, and that is in order. -/
def Call.isInOrder (c : Call) : Bool :=
  match c.request, c.answer with
  | .attributes (.text queueUrl) _, .ok answer => QueueClient.policyInOrder queueUrl answer
  | .attributes _ _, .ok _ => false
  | _, .ok answer => QueueClient.listsInOrder answer
  | _, .error _ => false

/-- Whether the answer of a call can be read. -/
def Call.Readable (c : Call) : Prop :=
  match c.request with
  | .attributes (.text queueUrl) _ =>
    ∃ policy?, c.answer >>= QueueClient.policyIn queueUrl = .ok policy? ∧
      ∀ policy, policy? = some policy → ∃ url, policy.deadLetterUrl = .ok url
  | .attributes _ _ => True
  | _ => ∃ ids, c.answer >>= Batch.failedIds = .ok ids

/-! ## Reading answers in order -/

section Reading

variable {answer : Value} {c : Call}

/-- A text for an id is an id. -/
theorem entryId_of_hasTextId {entry : Value} (h : entry.hasTextId = true) :
    ∃ id, Batch.entryId entry = .ok (.text id) := by
  unfold Value.hasTextId at h
  split at h
  · rename_i es
    split at h
    · rename_i id hid
      refine ⟨id, ?_⟩
      rw [Batch.entryId, hid]
      rfl
    · cases h
  · cases h

/-- The ids of entries can be read if each has a text for one. -/
theorem exists_ids {vs : List Value} (h : vs.all Value.hasTextId = true) :
    ∃ ids, vs.mapM Batch.entryId = .ok ids := by
  induction vs with
  | nil => exact ⟨[], rfl⟩
  | cons v vs ih =>
    rw [List.all_cons, Bool.and_eq_true] at h
    obtain ⟨id, hid⟩ := entryId_of_hasTextId h.1
    obtain ⟨ids, hids⟩ := ih h.2
    refine ⟨.text id :: ids, ?_⟩
    rw [List.mapM_cons, hid, hids]
    rfl

/-- The entries that an object lists as failed are the elements of what it has there. -/
theorem failedEntries_object {es : Entries} {v : Value}
    (hv : (Entries.get? es "Failed").getD .null = v) :
    QueueClient.failedEntries (.object es) = if !v.truthy then pure [] else match v.elements? with
      | some vs => pure vs
      | none => .error (.unworded .typeError) := by
  obtain rfl := hv
  rfl

/-- What is listed in order can be read. -/
theorem exists_failedIds (h : QueueClient.listsInOrder answer = true) :
    ∃ ids, Batch.failedIds answer = .ok ids := by
  unfold QueueClient.listsInOrder at h
  split at h
  · split at h
    · rename_i hnone
      refine ⟨[], ?_⟩
      rw [Batch.failedIds, failedEntries_object (congrArg (Option.getD · .null) hnone)]
      rfl
    · rename_i hnull
      refine ⟨[], ?_⟩
      rw [Batch.failedIds, failedEntries_object (congrArg (Option.getD · .null) hnull)]
      rfl
    · rename_i vs hvs
      obtain ⟨ids, hids⟩ := exists_ids h
      refine ⟨ids, ?_⟩
      rw [Batch.failedIds, failedEntries_object (congrArg (Option.getD · .null) hvs)]
      cases vs with
      | nil => exact hids
      | cons v vs => exact hids
    · cases h
  · cases h

/-- **An answer in order can be read.** -/
theorem Call.readable_of_isInOrder (h : c.isInOrder = true) : c.Readable := by
  obtain ⟨r, answer⟩ := c
  unfold Call.isInOrder at h
  unfold Call.Readable
  cases answer with
  | error e =>
    cases r with
    | attributes url _ => cases url <;> cases h
    | delete _ _ => cases h
    | send _ _ => cases h
  | ok v =>
    cases r with
    | delete _ _ => exact exists_failedIds h
    | send _ _ => exact exists_failedIds h
    | attributes url _ =>
      cases url with
      | text queueUrl =>
        change QueueClient.policyInOrder queueUrl v = true at h
        change ∃ policy?, QueueClient.policyIn queueUrl v = .ok policy? ∧ _
        unfold QueueClient.policyInOrder at h
        cases hpolicy : QueueClient.policyIn queueUrl v with
        | error e => rw [hpolicy] at h; cases h
        | ok policy? =>
          refine ⟨policy?, rfl, ?_⟩
          rintro policy rfl
          rw [hpolicy] at h
          obtain ⟨a, ha⟩ := Option.isSome_iff_exists.1 h
          exact ⟨a.url, by rw [RedrivePolicy.deadLetterUrl, ha]⟩
      | _ => trivial

/-- The ids that the answer to a send lists can be read. -/
theorem Call.Readable.of_send {url entries : Value} (h : c.Readable)
    (hr : c.request = .send url entries) : ∃ ids, c.answer >>= Batch.failedIds = .ok ids := by
  rw [Readable, hr] at h
  exact h

/-- If the ids that an answer lists can be read, so can its entries. -/
theorem Call.exists_failed {ids : List Value} (h : c.answer >>= Batch.failedIds = .ok ids) :
    ∃ failed, c.answer >>= QueueClient.failedEntries = .ok failed := by
  rw [Batch.bind_failedIds] at h
  obtain ⟨failed, hfailed, -⟩ := bind_eq_ok.1 h
  exact ⟨failed, hfailed⟩

/-- The entries that the answer to a delete lists can be read. -/
theorem Call.Readable.of_delete {url entries : Value} (h : c.Readable)
    (hr : c.request = .delete url entries) :
    ∃ failed, c.answer >>= QueueClient.failedEntries = .ok failed := by
  rw [Readable, hr] at h
  obtain ⟨ids, hids⟩ := h
  exact exists_failed hids

end Reading

/-! ## Plans that are done -/

section Plans

variable {plan : Plan} {cs : List Call} {stop : Option Error} {size : Size} {n : Nat}

/-- **A plan whose requests are accepted and whose answers can be read is done.** -/
theorem Issued.stop_eq_none {β : Type} {read : Value → Except Error β} {bs : List β}
    (h : Issued read plan cs bs stop) (hplan : ∀ r ∈ plan, ∃ q, r = .ok q)
    (hread : ∀ c ∈ cs, ∃ b, c.answer >>= read = .ok b) : stop = none := by
  cases stop with
  | none => rfl
  | some e =>
    obtain ⟨rest, rfl⟩ | ⟨before, c, rfl, herror⟩ := h.stop_cases
    · obtain ⟨q, hq⟩ := hplan (.error e) (by simp)
      cases hq
    · obtain ⟨b, hb⟩ := hread c (by simp)
      cases herror.symm.trans hb

/-- A plan that refuses nothing is done if its answers can be read. -/
theorem Issued.requests_eq_of_read {β : Type} {read : Value → Except Error β} {bs : List β}
    {rs : List Request} (h : Issued read (rs.map .ok) cs bs stop)
    (hread : ∀ c ∈ cs, ∃ b, c.answer >>= read = .ok b) : stop = none ∧ cs.map Call.request = rs := by
  have hplan : ∀ r ∈ (rs.map .ok : Plan), ∃ q, r = .ok q := by
    intro r hr
    obtain ⟨q, -, rfl⟩ := List.mem_map.1 hr
    exact ⟨q, rfl⟩
  obtain rfl := h.stop_eq_none hplan hread
  exact ⟨rfl, h.requests_eq_of_plan⟩

/-- **No request of a plan in chunks is refused** if the chunks are not too long. -/
theorem accepted_of_chunkPlan {request : Value → Request} {entries : List Value}
    (hstride : size.stride = .ok n) (hn : n ≤ maxEntries) :
    ∀ r ∈ chunkPlan request entries size, ∃ q, r = .ok q := by
  intro r hr
  rw [chunkPlan, chunk_of_stride hstride] at hr
  obtain ⟨es, hes, rfl⟩ := List.mem_map.1 hr
  obtain ⟨hne, hlength⟩ := length_le_of_mem_chunks hes
  refine exists_chunkRequest_iff.2 ⟨hne, ?_⟩
  unfold maxEntries at hn ⊢
  omega

/-- **A valid size that is a whole number is the length of its chunks**, which are not too long. -/
theorem Settings.stride_of_whole {settings : Settings}
    (h : settings.maxBatchSize.whole? = some n) :
    settings.maxBatchSize.stride = .ok n ∧ 0 < n ∧ n ≤ maxEntries := by
  have hrange : 0 < n ∧ n ≤ maxEntries := by
    have hvalid := settings.valid
    rw [Bool.and_eq_true] at hvalid
    cases hs : settings.maxBatchSize with
    | float x => rw [hs] at h; cases h
    | bool b =>
      rw [hs] at h hvalid
      obtain rfl := Option.some.inj h
      cases b with
      | false => exact absurd hvalid.1 (by decide)
      | true => exact ⟨by decide, by decide⟩
    | int k =>
      rw [hs] at h hvalid
      obtain rfl := Option.some.inj h
      have hlower : (1 : Int) ≤ k := of_decide_eq_true hvalid.1
      have hupper : k ≤ (maxEntries : Int) := of_decide_eq_true hvalid.2
      omega
  exact ⟨Size.stride_of_whole h hrange.1, hrange⟩

/-- A size that is no floating point number is a whole number. -/
theorem Settings.exists_stride (settings : Settings)
    (hsize : ∀ x, settings.maxBatchSize ≠ .float x) :
    ∃ n, settings.maxBatchSize.stride = .ok n ∧ n ≤ maxEntries := by
  cases hwhole : settings.maxBatchSize.whole? with
  | none =>
    cases hs : settings.maxBatchSize with
    | float x => exact absurd hs (hsize x)
    | int | bool => rw [hs] at hwhole; cases hwhole
  | some n =>
    obtain ⟨hstride, -, hn⟩ := stride_of_whole hwhole
    exact ⟨n, hstride, hn⟩

namespace Batch

variable {queueUrl : Text} {groups : QueueGroups} {ms : List Message}

theorem accepted_of_deletePlan (hstride : size.stride = .ok n) (hn : n ≤ maxEntries) :
    ∀ r ∈ deletePlan size queueUrl ms, ∃ q, r = .ok q := by
  intro r hr
  unfold deletePlan at hr
  split at hr
  · simp at hr
  · exact accepted_of_chunkPlan hstride hn r hr

theorem accepted_of_groupsPlan (hstride : size.stride = .ok n) (hn : n ≤ maxEntries) :
    ∀ r ∈ groupsPlan size groups, ∃ q, r = .ok q := by
  intro r hr
  obtain ⟨group, -, hr⟩ := List.mem_flatMap.1 hr
  exact accepted_of_deletePlan hstride hn r hr

/-- Deleting messages of groups ends well if answers can be read. -/
theorem stop_eq_none_of_groupsPlan {lists : List (List Value)}
    (h : Issued QueueClient.failedEntries (groupsPlan size groups) cs lists stop)
    (hstride : size.stride = .ok n) (hn : n ≤ maxEntries) (hread : ∀ c ∈ cs, c.Readable) :
    stop = none := by
  refine h.stop_eq_none (accepted_of_groupsPlan hstride hn) fun c hc => ?_
  obtain ⟨group, -, es, hr, -⟩ := deletesOf_of_groupsPlan h hc
  exact (hread c hc).of_delete hr

end Batch
end Plans
end PartialBatch
