/-
# Where errors come from

A reconciliation can end in an error for three reasons: a request is refused before the client is
used, something that was given or answered cannot be used, or the queue service raised the error in
the place of an answer.

| step | its own errors |
| --- | --- |
| verdict on an error, part of an answer, id of an entry | unworded |
| id that an entry does not have | of the missing key |
| URL of the queue of a message | of the resource name |
| redrive policy, URL of a dead-letter queue | of the policy, or of its depth |
| attributes of a message | of their base64 text |
| chunks, number of entries | refusals (`IsRefusal`) |

None of them is a report, so a reconciliation that ends in one got it from the queue service
(`Reconciled.report_raised`); and none but the last is a refusal, so if no request is refused, a
reconciliation that ends in a refusal got it there too (`Reconciled.refusal_raised`).
-/

import PartialBatch.Proofs.Batch.Answers
import PartialBatch.Proofs.Error.Shown

namespace PartialBatch

/-! ## Kinds of errors -/

namespace Error

/-- Whether an error is a report. -/
def isReport : Error → Bool
  | report .. => true
  | _ => false

/-- The errors of a reconciliation about what it was given and what is answered. -/
inductive IsOwn : Error → Prop
  | unworded (cls : ErrorClass) : IsOwn (unworded cls)
  | missing (key : Text) : IsOwn (ordinary .keyError [.text key] [] none)
  | unlocated (arn : Text) : IsOwn (saying .valueError ("Not an SQS queue ARN: " ++ arn))
  | unusable (message : Text) (queueUrl raw : Value) (cause : Cause) :
      IsOwn (redrivePolicy message queueUrl raw cause)
  | deep (t : Text) : IsOwn (saying .recursionError t)
  | notAscii : IsOwn (saying .valueError Base64.Fault.notAscii.text)
  | undecodable (t : Text) : IsOwn (saying .decodingError t)
  | untold (fault : ShowFault) : IsOwn (ofShowFault fault)

/-- The errors by which a request is refused before the client is used: it has no entries, or too
many, or there are no chunks of that size. -/
inductive IsRefusal : Error → Prop
  | empty : IsRefusal (saying .valueError "At least one entry is required")
  | crowded (count : Nat) : IsRefusal (saying .valueError
      ("At most 10 entries are allowed per request, got " ++ Text.ofNat count))
  | undersized (told : Text) :
      IsRefusal (saying .valueError ("max_size must be at least 1, got " ++ told))

variable {e : Error}

theorem IsUnshown.isOwn (h : e.IsUnshown) : e.IsOwn := by
  obtain ⟨fault, rfl⟩ := h
  exact .untold fault

theorem IsOwn.not_report (h : e.IsOwn) : e.isReport = false := by
  cases h with
  | untold fault => cases fault <;> rfl
  | _ => rfl

theorem IsRefusal.not_report (h : e.IsRefusal) : e.isReport = false := by
  cases h <;> rfl

end Error

open Raises Error

/-! ## Answers and queues -/

section Steps

variable {queueUrl : Text}

theorem raises_part (answer : Value) (key : Text) : Raises IsOwn (QueueClient.part answer key) := by
  unfold QueueClient.part
  split
  · exact ok
  · exact error (.unworded _)

theorem raises_failedEntries (answer : Value) :
    Raises IsOwn (QueueClient.failedEntries answer) := by
  refine (raises_part _ _).bind fun failed => ?_
  split
  · exact ok
  · split
    · exact ok
    · exact error (.unworded _)

theorem raises_entryId (entry : Value) : Raises IsOwn (Batch.entryId entry) := by
  unfold Batch.entryId
  split
  · split
    · exact error (.missing _)
    · split
      · exact ok
      · exact error (.unworded _)
  · exact error (.unworded _)

theorem raises_failedIds (answer : Value) : Raises IsOwn (Batch.failedIds answer) :=
  (raises_failedEntries _).bind fun _ => Raises.mapM raises_entryId _

theorem raises_policyIn (queueUrl : Text) (answer : Value) :
    Raises IsOwn (QueueClient.policyIn queueUrl answer) := by
  have hpolicy : Raises IsOwn (QueueClient.policyOf answer) := by
    refine (raises_part _ _).bind fun attributes => ?_
    dsimp only
    split
    · exact (raises_part _ _).bind fun _ => ok
    · exact ok
  have hattribute (raw : Value) :
      Raises IsOwn (RedrivePolicy.ofAttribute (.text queueUrl) raw) := by
    unfold RedrivePolicy.ofAttribute RedrivePolicy.malformed
    split
    · split
      · exact error (.deep _)
      · exact error (.unusable ..)
      · split
        · exact ok
        · exact error (.unusable ..)
    · exact error (.unusable ..)
  refine hpolicy.bind fun policy => ?_
  split
  · exact ok
  · exact (hattribute _).bind fun _ => ok

theorem raises_deadLetterUrl (policy : RedrivePolicy) : Raises IsOwn policy.deadLetterUrl := by
  unfold RedrivePolicy.deadLetterUrl
  split
  · exact ok
  · exact error (.unusable ..)

theorem raises_queueUrl (m : Message) : Raises IsOwn m.queueUrl := by
  unfold Message.queueUrl QueueAddress.urlOfArn
  split
  · exact ok
  · exact error (.unlocated _)

theorem raises_ofMessages (ms : List Message) : Raises IsOwn (QueueGroups.ofMessages ms) := by
  have hadd (groups : QueueGroups) : Raises IsOwn (QueueGroups.addAll groups ms) := by
    induction ms generalizing groups with
    | nil => exact ok
    | cons m ms ih => exact (raises_queueUrl m).bind fun u => ih _
  exact hadd []

/-! ## Messages and errors -/

theorem raises_sendEntries (ms : List Message) : Raises IsOwn (Message.sendEntries ms) := by
  have hbinary (t : Text) : Raises IsOwn (Message.binary t) := by
    unfold Message.binary
    split
    · exact ok
    · exact error .notAscii
    · exact error (.undecodable _)
  have hattribute (given : Entries) : Raises IsOwn (Message.sendAttribute given) := by
    unfold Message.sendAttribute
    dsimp only
    split
    · exact ok
    · split
      · exact ok
      · exact (hbinary _).bind fun _ => ok
      · exact ok
      · exact ok
  have hattributes (given : List (Text × Entries)) :
      Raises IsOwn (Message.sendAttributes given) := by
    induction given with
    | nil => exact ok
    | cons first rest ih =>
      refine (hattribute first.2).bind fun converted => ih.bind fun others => ?_
      split <;> exact ok
  exact Raises.mapM (fun m => (hattributes _).bind fun _ => ok) ms

theorem raises_nonRetryable (triage : Triage) (failed : List (Message × Error)) :
    Raises IsOwn (Batch.nonRetryable triage failed) := by
  have hclassify (e : Error) : Raises IsOwn (triage.classify e) := by
    unfold Triage.classify
    split
    · exact ok
    · split
      · exact ok
      · exact ok
      · exact ok
      · split
        · exact ok
        · exact error (.unworded _)
  induction failed with
  | nil => exact ok
  | cons f rest ih =>
    exact Raises.bind ((hclassify f.2).bind fun _ => ok) fun final => ih.bind fun others => ok

/-! ## Plans -/

/-- A size for which there are no chunks is refused, or is no whole number. -/
theorem raises_stride (size : Size) : Raises (fun e => e.IsOwn ∨ e.IsRefusal) size.stride := by
  unfold Size.stride
  split
  · have htold : Raises (fun e => e.IsOwn ∨ e.IsRefusal) (Error.telling size.value) :=
      (raises_telling _).mono fun e he => .inl he.isOwn
    exact htold.bind fun t => error (.inr (.undersized t))
  · split
    · exact ok
    · exact ok
    · exact error (.inl (.unworded _))

theorem raises_countEntries (entries : Value) :
    Raises (fun e => e.IsOwn ∨ e.IsRefusal) (QueueClient.countEntries entries) := by
  unfold QueueClient.countEntries
  split
  · exact error (.inr .empty)
  · split
    · exact error (.inl (.unworded _))
    · split
      · exact error (.inr (.crowded _))
      · exact ok

theorem raises_of_chunkPlan {request : Value → Request} {entries : List Value} {size : Size} :
    ∀ r ∈ chunkPlan request entries size, Raises (fun e => e.IsOwn ∨ e.IsRefusal) r := by
  intro r hr
  unfold chunkPlan at hr
  split at hr
  · rename_i f hf
    obtain rfl := List.mem_singleton.1 hr
    have hchunk : Raises (fun e => e.IsOwn ∨ e.IsRefusal) (chunk entries size) :=
      (raises_stride size).bind fun _ => ok
    exact error (hchunk f hf)
  · obtain ⟨es, -, rfl⟩ := List.mem_map.1 hr
    unfold chunkRequest
    have hcount := raises_countEntries (.list es)
    cases hn : QueueClient.countEntries (.list es) with
    | error f => exact error (hcount f hn)
    | ok n => exact ok

end Steps

/-! ## Calls -/

variable {e : Error} {P : Error → Prop}

/-- A plan that ends in an error of no kind that its parts raise got it in the place of an answer. -/
theorem Issued.raised {read : Value → Except Error β} {plan : Plan} {cs : List Call}
    {bs : List β} (h : Issued read plan cs bs (some e)) (hplan : ∀ r ∈ plan, Raises P r)
    (hread : ∀ v, Raises P (read v)) : P e ∨ ∃ c ∈ cs, c.answer = .error e := by
  generalize hs : some e = stop at h
  induction h with
  | done => cases hs
  | refused =>
    obtain rfl := Option.some.inj hs
    exact .inl (hplan _ (List.mem_cons_self ..) _ rfl)
  | @failed r answer f plan hfailed =>
    obtain rfl := Option.some.inj hs
    cases answer with
    | error f =>
      obtain rfl := Except.error.inj hfailed
      exact .inr ⟨_, List.mem_cons_self .., rfl⟩
    | ok v => exact .inl (hread v _ hfailed)
  | next _ _ ih =>
    refine (ih (fun r hr => hplan r (List.mem_cons_of_mem _ hr)) hs).imp_right ?_
    rintro ⟨c, hc, hanswer⟩
    exact ⟨c, List.mem_cons_of_mem _ hc, hanswer⟩

namespace Batch

variable {size : Size} {queueUrl : Text} {ms : List Message} {groups : QueueGroups}
  {cs : List Call}

section Kinds

variable (hown : ∀ e : Error, e.IsOwn → P e)
  (hplan : ∀ request entries, ∀ r ∈ chunkPlan request entries size, Raises P r)

include hplan in
theorem raises_of_deletePlan : ∀ r ∈ deletePlan size queueUrl ms, Raises P r := by
  intro r hr
  unfold deletePlan at hr
  split at hr
  · simp at hr
  · exact hplan _ _ r hr

include hplan in
theorem raises_of_groupsPlan : ∀ r ∈ groupsPlan size groups, Raises P r := by
  intro r hr
  obtain ⟨group, -, hr⟩ := List.mem_flatMap.1 hr
  exact raises_of_deletePlan hplan r hr

include hown hplan in
/-- Where the error comes from that moving ends in. -/
theorem Moving.raised (h : Moving size queueUrl ms cs (.error e)) :
    P e ∨ ∃ c ∈ cs, c.answer = .error e := by
  generalize hx : (Except.error e : Except Error (List Message)) = x at h
  cases h with
  | @unread answer f hpolicy =>
    obtain rfl := Except.error.inj hx
    cases answer with
    | error f =>
      obtain rfl := Except.error.inj hpolicy
      exact .inr ⟨_, List.mem_cons_self .., rfl⟩
    | ok v => exact .inl (hown _ (raises_policyIn queueUrl v _ hpolicy))
  | absent => cases hx
  | unusable _ hurl =>
    obtain rfl := Except.error.inj hx
    exact .inl (hown _ (raises_deadLetterUrl _ _ hurl))
  | unsendable _ _ hentries =>
    obtain rfl := Except.error.inj hx
    exact .inl (hown _ (raises_sendEntries ms _ hentries))
  | unsent _ _ _ hissued =>
    obtain rfl := Except.error.inj hx
    refine (hissued.raised (hplan _ _) fun v => (raises_failedIds v).mono hown).imp_right ?_
    rintro ⟨c, hc, hanswer⟩
    exact ⟨c, List.mem_cons_of_mem _ hc, hanswer⟩
  | sent => cases hx

include hown hplan in
/-- Where the error comes from that blocks end in. -/
theorem Redriven.raised (h : Redriven size groups cs (some e)) :
    P e ∨ ∃ c ∈ cs, c.answer = .error e := by
  generalize hs : some e = stop at h
  induction h with
  | done => cases hs
  | halted hblock =>
    obtain rfl := Option.some.inj hs
    cases hblock with
    | unmoved hmove => exact hmove.raised hown hplan
    | moved hmove hdelete =>
      refine (hdelete.raised (raises_of_deletePlan hplan) fun v =>
        (raises_failedEntries v).mono hown).imp_right ?_
      rintro ⟨c, hc, hanswer⟩
      exact ⟨c, List.mem_append_right _ hc, hanswer⟩
  | next hblock hrest ih =>
    refine (ih hs).imp_right ?_
    rintro ⟨c, hc, hanswer⟩
    exact ⟨c, List.mem_append_right _ hc, hanswer⟩

end Kinds

variable {settings : Settings} {triage : Triage} {succeeded : List Message}
  {failed : List (Message × Error)}

/-- **An error that ends a reconciliation is of a kind that its parts raise**, or the queue service
raised it. -/
theorem Reconciled.raised (h : Reconciled settings triage succeeded failed cs (some e))
    (hown : ∀ e : Error, e.IsOwn → P e)
    (hplan : ∀ request entries, ∀ r ∈ chunkPlan request entries settings.maxBatchSize,
      Raises P r) : P e ∨ ∃ c ∈ cs, c.answer = .error e := by
  have hread (v : Value) : Raises P (QueueClient.failedEntries v) :=
    (raises_failedEntries v).mono hown
  cases h with
  | undecided herror => exact .inl (hown _ (raises_nonRetryable _ _ _ herror))
  | unlocated herror =>
    rcases herror with herror | herror
    · exact .inl (hown _ (raises_ofMessages _ _ herror))
    · exact .inl (hown _ (raises_ofMessages _ _ herror))
  | deleting _ _ _ hissued => exact hissued.raised (raises_of_groupsPlan hplan) hread
  | halted _ _ _ hissued => exact hissued.raised (raises_of_groupsPlan hplan) hread
  | redriving _ _ _ _ hredriven =>
    refine (hredriven.raised hown hplan).imp_right ?_
    rintro ⟨c, hc, hanswer⟩
    exact ⟨c, List.mem_append_right _ hc, hanswer⟩

/-- **A reconciliation that ends in a report got it from the queue service.** -/
theorem Reconciled.report_raised (h : Reconciled settings triage succeeded failed cs (some e))
    (hreport : e.isReport = true) : ∃ c ∈ cs, c.answer = .error e := by
  have hraised := h.raised (P := fun e => e.isReport = false) (fun e he => he.not_report)
    fun request entries r hr => (raises_of_chunkPlan r hr).mono fun e he =>
      he.elim IsOwn.not_report IsRefusal.not_report
  exact hraised.resolve_left (by simp [hreport])

end Batch
end PartialBatch
