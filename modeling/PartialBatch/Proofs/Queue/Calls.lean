/-
# Calls to the queue service

What a course shows of the queue service: requests with their answers, in order (`calls`). A
send request names the dead-letter queue only, and several queues may share one, so it is told
by what came before it for which queue it is made: the one whose redrive policy was read last
(`sendsFor`).

| client function | calls | ends in |
| --- | --- | --- |
| `batch`, entries refused | none | the refusal |
| `batch`, entries accepted | one | what its answer lists as failed |
| `redrivePolicy` | one | the policy in its answer, if it has one |
-/

import PartialBatch.Proofs.Run.Course
import PartialBatch.Batch.Reconciliation

namespace PartialBatch

/-- A request that was made, with its answer or the error in its place. -/
structure Call where
  request : Request
  answer : Except Error Value

/-- Calls that begin with the same request begin with the same answer. -/
theorem Call.cons_inj {r : Request} {answer answer' : Except Error Value} {cs ds : List Call}
    (h : (⟨r, answer⟩ : Call) :: cs = ⟨r, answer'⟩ :: ds) : answer = answer' ∧ cs = ds := by
  simpa using h

/-- The call that an event is, if it is one. -/
def Event.call? : Event → Option Call
  | ⟨.request r, answer⟩ => some ⟨r, answer⟩
  | _ => none

/-- The calls among events. -/
def calls (t : List Event) : List Call := t.filterMap Event.call?

@[simp] theorem calls_nil : calls [] = [] := rfl

@[simp] theorem calls_append (t u : List Event) : calls (t ++ u) = calls t ++ calls u :=
  List.filterMap_append

@[simp] theorem calls_log (entry : Log.Entry) (t : List Event) :
    calls (⟨.log entry, ()⟩ :: t) = calls t := rfl

/-- A line that may be logged on the way makes no call. -/
theorem ends_optional_log {α : Type} {level : Log.Level} {event : Text} {fields : Entries}
    {f : Unit → Run α} {c : Prop} [Decidable c] {t : List Event} {x : Except Error α}
    (h : (if c then Run.log level event fields >>= f else f ()).Ends t x) :
    ∃ rest, (f ()).Ends rest x ∧ calls t = calls rest := by
  split at h
  · obtain ⟨rest, rfl, hrest⟩ := Run.ends_log_bind.1 h
    exact ⟨rest, hrest, rfl⟩
  · exact ⟨t, h, rfl⟩

/-- A line that may be logged last makes no call, and the run ends well. -/
theorem ends_last_log {level : Log.Level} {event : Text} {fields : Entries} {c : Prop}
    [Decidable c] {t : List Event} {x : Except Error Unit}
    (h : (if c then Run.log level event fields else pure ()).Ends t x) :
    calls t = [] ∧ x = .ok () := by
  split at h
  · obtain ⟨rfl, rfl⟩ := Run.ends_log.1 h
    exact ⟨rfl, rfl⟩
  · obtain ⟨rfl, rfl⟩ := Run.ends_pure.1 h
    exact ⟨rfl, rfl⟩

/-! ## Calls about a queue -/

/-- The URL of the queue that a request names. -/
def Request.queueUrl : Request → Value
  | .delete url _ => url
  | .send url _ => url
  | .attributes url _ => url

/-- The entries of a request. -/
def Request.entries : Request → List Value
  | .delete _ (.list es) => es
  | .send _ (.list es) => es
  | _ => []

/-- The entries of calls, one after another. -/
def entriesOf (cs : List Call) : List Value := cs.flatMap fun c => c.request.entries

@[simp] theorem entriesOf_append (cs ds : List Call) :
    entriesOf (cs ++ ds) = entriesOf cs ++ entriesOf ds := List.flatMap_append

/-- Whether a request deletes from a queue. -/
def Request.deletesFrom (queueUrl : Text) : Request → Bool
  | .delete url _ => url = .text queueUrl
  | _ => false

/-- The calls that delete from a queue. -/
def deletesFrom (queueUrl : Text) (cs : List Call) : List Call :=
  cs.filter fun c => c.request.deletesFrom queueUrl

@[simp] theorem deletesFrom_nil (queueUrl : Text) : deletesFrom queueUrl [] = [] := rfl

@[simp] theorem deletesFrom_append (queueUrl : Text) (cs ds : List Call) :
    deletesFrom queueUrl (cs ++ ds) = deletesFrom queueUrl cs ++ deletesFrom queueUrl ds :=
  List.filter_append ..

/-- The calls that send on behalf of a queue, if `active` says whether its redrive policy was
the one read last before. -/
def sendsWhile (queueUrl : Text) : (active : Bool) → List Call → List Call
  | _, [] => []
  | active, c :: rest =>
    match c.request with
    | .attributes url _ => sendsWhile queueUrl (url = .text queueUrl) rest
    | .send _ _ => if active then c :: sendsWhile queueUrl active rest
      else sendsWhile queueUrl active rest
    | .delete _ _ => sendsWhile queueUrl active rest

section SendsWhile

variable {queueUrl : Text} {active : Bool} {answer : Except Error Value} {rest : List Call}

@[simp] theorem sendsWhile_nil : sendsWhile queueUrl active [] = [] := rfl

theorem sendsWhile_attributes {url : Value} {names : List Text} :
    sendsWhile queueUrl active (⟨.attributes url names, answer⟩ :: rest) =
      sendsWhile queueUrl (url = .text queueUrl) rest := rfl

theorem sendsWhile_send {url entries : Value} :
    sendsWhile queueUrl active (⟨.send url entries, answer⟩ :: rest) =
      (if active then [⟨.send url entries, answer⟩] else []) ++
        sendsWhile queueUrl active rest := by
  cases active <;> rfl

theorem sendsWhile_delete {url entries : Value} :
    sendsWhile queueUrl active (⟨.delete url entries, answer⟩ :: rest) =
      sendsWhile queueUrl active rest := rfl

end SendsWhile

/-- The calls that send on behalf of a queue: those between reading its redrive policy and
reading that of another queue. -/
def sendsFor (queueUrl : Text) (cs : List Call) : List Call := sendsWhile queueUrl false cs

/-- The request for the redrive policy of a queue. -/
def QueueClient.policyRequest (queueUrl : Text) : Request :=
  .attributes (.text queueUrl) [redriveAttribute]

/-- The calls that read the redrive policy of a queue. -/
def policyReads (queueUrl : Text) (cs : List Call) : List Call :=
  cs.filter fun c => c.request = QueueClient.policyRequest queueUrl

@[simp] theorem policyReads_append (queueUrl : Text) (cs ds : List Call) :
    policyReads queueUrl (cs ++ ds) = policyReads queueUrl cs ++ policyReads queueUrl ds :=
  List.filter_append ..

/-! ## Reading answers -/

/-- The entries that the answer of a call lists as failed. -/
def Call.failed (c : Call) : List Value :=
  match c.answer >>= QueueClient.failedEntries with
  | .ok entries => entries
  | .error _ => []

/-- Whether an entry of an answer names an id. -/
def Batch.names (entry : Value) (id : Text) : Bool :=
  match entryId entry with
  | .ok v => v = .text id
  | .error _ => false

@[simp] theorem Batch.names_iff {entry : Value} {id : Text} :
    names entry id = true ↔ entryId entry = .ok (.text id) := by
  unfold names
  cases entryId entry with
  | error e => simp
  | ok v => simp

/-- Whether an answer lists the id of a message as failed. -/
def Call.Lists (c : Call) (id : Text) : Prop := ∃ entry ∈ c.failed, Batch.names entry id = true

instance (c : Call) (id : Text) : Decidable (c.Lists id) :=
  inferInstanceAs (Decidable (∃ entry ∈ c.failed, Batch.names entry id = true))

namespace QueueClient

/-- The redrive policy of a queue in an answer; a queue without dead-letter queue has none. -/
def policyIn (queueUrl : Text) (answer : Value) : Except Error (Option RedrivePolicy) := do
  match ← policyOf answer with
  | none => pure none
  | some policy => pure (some (← RedrivePolicy.ofAttribute (.text queueUrl) policy))

variable {t : List Event}

/-- A request of entries is refused before the client is used, or is made and read. -/
theorem ends_batch {event : Text} {request : Value → Value → Request} {queueUrl entries : Value}
    {x : Except Error (List Value)} (h : (batch event request queueUrl entries).Ends t x) :
    (∃ e, countEntries entries = .error e ∧ calls t = [] ∧ x = .error e) ∨
      ∃ n answer, countEntries entries = .ok n ∧
        calls t = [⟨request queueUrl entries, answer⟩] ∧ x = answer >>= failedEntries := by
  unfold batch at h
  obtain ⟨e, he, rfl, rfl⟩ | ⟨n, hn, h⟩ := Run.ends_lift_bind.1 h
  · exact .inl ⟨e, he, rfl, rfl⟩
  refine .inr ⟨n, ?_⟩
  obtain ⟨e, he, rfl⟩ | ⟨t₁, answer, t₂, h₁, h₂, rfl⟩ := Run.ends_bind.1 h
  · obtain rfl := Run.ends_request.1 he
    exact ⟨.error e, hn, rfl, rfl⟩
  obtain rfl := Run.ends_request.1 h₁
  refine ⟨.ok answer, hn, ?_⟩
  obtain ⟨e, he, rfl, rfl⟩ | ⟨failed, hf, h₃⟩ := Run.ends_lift_bind.1 h₂
  · exact ⟨rfl, he.symm⟩
  · obtain ⟨rest, rfl, rfl, rfl⟩ := Run.ends_log_bind.1 h₃
    exact ⟨rfl, hf.symm⟩

/-- Reading a redrive policy makes one call, and ends in the policy that its answer holds. -/
theorem ends_redrivePolicy {queueUrl : Text} {x : Except Error (Option RedrivePolicy)}
    (h : (redrivePolicy (.text queueUrl)).Ends t x) :
    ∃ answer, calls t = [⟨policyRequest queueUrl, answer⟩] ∧ x = answer >>= policyIn queueUrl := by
  unfold redrivePolicy at h
  obtain ⟨e, he, rfl⟩ | ⟨t₁, answer, t₂, h₁, h₂, rfl⟩ := Run.ends_bind.1 h
  · obtain rfl := Run.ends_request.1 he
    exact ⟨.error e, rfl, rfl⟩
  obtain rfl := Run.ends_request.1 h₁
  refine ⟨.ok answer, ?_⟩
  change _ ∧ x = policyIn queueUrl answer
  unfold policyIn
  obtain ⟨e, he, rfl, rfl⟩ | ⟨policy, hp, h₃⟩ := Run.ends_lift_bind.1 h₂
  · exact ⟨rfl, by rw [he]; rfl⟩
  rw [hp]
  cases policy with
  | none =>
    obtain ⟨rfl, rfl⟩ := Run.ends_pure.1 h₃
    exact ⟨rfl, rfl⟩
  | some policy =>
    change _ ∧ x = RedrivePolicy.ofAttribute (.text queueUrl) policy >>= fun read => .ok (some read)
    obtain ⟨e, he, rfl, rfl⟩ | ⟨read, hr, h₄⟩ := Run.ends_lift_bind.1 h₃
    · exact ⟨rfl, by rw [he]; rfl⟩
    · obtain ⟨rfl, rfl⟩ := Run.ends_pure.1 h₄
      exact ⟨rfl, by rw [hr]; rfl⟩

end QueueClient
end PartialBatch
