/-
# An invocation of the consumer

What an invocation ends in is told by the bodies of the records alone, if the queue service does what
it is asked to do and every message has data that can be used.

| bodies | calls | ends in |
| --- | --- | --- |
| all are records | none | a receipt for each |
| others among them | a cleanup of both | the report of the others, with the receipts of the records |

The handler never asks anything but to write a line, so its result is a function of the message
(`result`), and so are the outcomes of a batch (`outcomes_of_handling`). A body that is no record is
refused with an error that is not retryable: what is refused is just what is moved to a dead-letter
queue (`finals_refused`). Reading has its limits on digits and depth, and beyond them the error is
retryable; a body that holds no integer of too many digits stays within the first
(`Json.staysWithinLimits_of_short`).
-/

import PartialBatch.Proofs.Batch.Bookkeeping
import PartialBatch.Proofs.Batch.Fulfilment
import PartialBatch.Proofs.Batch.Untouched
import PartialBatch.Proofs.Json.Places

namespace PartialBatch
namespace Consumer

variable {m : Message} {ms : List Message} {t : List Event}

/-! ## One record -/

/-- Whether the body of a message is the JSON text of an object. -/
def isRecord (m : Message) : Bool :=
  match Json.read m.body with
  | .ok (.object _) => true
  | _ => false

/-- The value that is returned for a record. -/
def receipt (m : Message) : Value :=
  .object [("messageId", .text m.id), ("status", .text "success")]

/-- The error for a body that is no record. -/
def refusal (m : Message) : Error :=
  .malformedRecord
    (match Json.read m.body with
      | .error fault => "Invalid message format: " ++ fault.text
      | .ok _ => "Message body must be a JSON object") m.id

/-- What handling a message ends in. -/
def result (m : Message) : Except Error Value :=
  match Json.read m.body with
  | .error (.digits count) => .error (.saying .valueError (Json.Fault.digits count).text)
  | .error (.depth container) =>
    .error (.saying .recursionError (Json.Fault.depth container).text)
  | .error (.malformed ..) => .error (refusal m)
  | .ok (.object _) => .ok (receipt m)
  | .ok _ => .error (refusal m)

/-- **Handling a message asks for nothing**, and ends in its result. -/
theorem ends_handleRecord {x : Except Error Value} (h : (handleRecord m).Ends t x) :
    calls t = [] ∧ x = result m := by
  unfold handleRecord at h
  unfold result refusal
  cases hread : Json.read m.body with
  | error fault =>
    rw [hread] at h
    cases fault <;>
    · obtain ⟨rfl, rfl⟩ := Run.ends_raise.1 h
      exact ⟨rfl, rfl⟩
  | ok v =>
    rw [hread] at h
    cases v with
    | object es =>
      obtain ⟨rest, rfl, rfl, rfl⟩ := Run.ends_log_bind.1 h
      exact ⟨rfl, rfl⟩
    | _ =>
      obtain ⟨rfl, rfl⟩ := Run.ends_raise.1 h
      exact ⟨rfl, rfl⟩

/-- Every error of the handler is answered for, and has a text. -/
theorem noted_of_result {e : Error} (h : result m = .error e) : ∃ u, Batch.noted e = .ok u := by
  have hcoded : ∃ u, Batch.noted (refusal m) = .ok u := ⟨_, rfl⟩
  unfold result at h
  split at h
  · obtain rfl := Except.error.inj h
    exact ⟨_, rfl⟩
  · obtain rfl := Except.error.inj h
    exact ⟨_, rfl⟩
  · obtain rfl := Except.error.inj h
    exact hcoded
  · cases h
  · obtain rfl := Except.error.inj h
    exact hcoded

/-! ## A batch -/

/-- The outcome of a message. -/
def outcome (m : Message) : Outcome :=
  match result m with
  | .ok v => .success v
  | .error e => .failure e

/-- A hook that is absent has no turn. -/
theorem turn_eq_none {α : Type} {a : Option α} {turn : Option (Turn Unit)}
    (h : Batch.Called none a turn) : turn = none := by
  cases h
  rfl

/-- A passage through the handler without hooks gives a message its outcome, without calls. -/
theorem verdict_of_passage {s : Batch.Passage} (h : s.Of ⟨handleRecord, .done ()⟩ {}) :
    calls s.events = [] ∧ s.verdict = .ok (outcome s.message) := by
  obtain ⟨hcalls, hresult⟩ := ends_handleRecord h.handled
  have hsucceeded : s.succeeded = none := turn_eq_none h.succeeded
  have hfailed : s.failed = none := turn_eq_none h.failed
  have hproduced : s.produced = result s.message := by
    simp [Batch.Passage.produced, hsucceeded, hresult]
  constructor
  · simp [h.calls_events, Batch.Passage.turns, hsucceeded, hfailed, hcalls]
  · unfold Batch.Passage.verdict outcome
    rw [hproduced]
    cases hr : result s.message with
    | ok v => rfl
    | error e =>
      obtain ⟨u, hnoted⟩ := noted_of_result hr
      simp [hnoted, Batch.Passage.hookEnd, Batch.Passage.hookNoted, hfailed]
      rfl

theorem outcomes_of_passages {ss : List Batch.Passage}
    {x : Except Error (List (Message × Outcome))}
    (h : Batch.Passages ⟨handleRecord, .done ()⟩ {} ms ss x) :
    calls (ss.flatMap Batch.Passage.events) = [] ∧ x = .ok (ms.map fun m => (m, outcome m)) := by
  induction h with
  | done => exact ⟨rfl, rfl⟩
  | halted hof hverdict => cases hverdict.symm.trans (verdict_of_passage hof).2
  | next hof hverdict _ ih =>
    obtain ⟨hcalls, houtcome⟩ := verdict_of_passage hof
    obtain rfl := Except.ok.inj (hverdict.symm.trans houtcome)
    obtain ⟨hrest, rfl⟩ := ih
    rw [List.flatMap_cons, calls_append, hcalls, hrest]
    exact ⟨rfl, rfl⟩

/-- **The outcomes of a batch are given by its messages**, and no call is made for them. -/
theorem outcomes_of_handling {p : Processor} {x : Except Error (List (Message × Outcome))}
    (hhooks : p.hooks = {}) (h : (p.handling ms handler).Ends t x) :
    calls t = [] ∧ x = .ok (ms.map fun m => (m, outcome m)) := by
  obtain ⟨e, ⟨-, he⟩, -⟩ | ⟨_, _, ss, ⟨rfl, hcallee⟩, hpassages, rfl⟩ :=
    Processor.passages_of_handling h
  · cases he
  · obtain rfl := Except.ok.inj hcallee
    exact outcomes_of_passages (hhooks ▸ hpassages)

/-- The records of a batch. -/
def records (ms : List Message) : List Message := ms.filter isRecord

/-- The messages of a batch that are no records. -/
def others (ms : List Message) : List Message := ms.filter fun m => !isRecord m

/-- Within the limits of reading, what is no record is refused. -/
theorem result_eq (h : Json.staysWithinLimits m.body = true) :
    result m = if isRecord m then .ok (receipt m) else .error (refusal m) := by
  unfold Json.staysWithinLimits at h
  unfold result isRecord
  cases hread : Json.read m.body with
  | error fault =>
    rw [hread] at h
    cases fault with
    | malformed => rfl
    | digits | depth => cases h
  | ok v => cases v <;> rfl

/-- The records of a batch succeed, and the others are refused. -/
theorem outcomes_parts (h : ∀ m ∈ ms, Json.staysWithinLimits m.body = true) :
    Batch.successes (ms.map fun m => (m, outcome m)) = (records ms).map (fun m => (m, receipt m)) ∧
      Batch.failures (ms.map fun m => (m, outcome m)) =
        (others ms).map fun m => (m, refusal m) := by
  induction ms with
  | nil => exact ⟨rfl, rfl⟩
  | cons m rest ih =>
    obtain ⟨hsuccesses, hfailures⟩ := ih fun n hn => h n (List.mem_cons_of_mem _ hn)
    have hresult := result_eq (h m (List.mem_cons_self ..))
    unfold Batch.successes at hsuccesses ⊢
    unfold Batch.failures at hfailures ⊢
    unfold records others at *
    cases hrecord : isRecord m with
    | true =>
      have houtcome : outcome m = .success (receipt m) := by simp [outcome, hresult, hrecord]
      simp [houtcome, hrecord, hsuccesses, hfailures]
    | false =>
      have houtcome : outcome m = .failure (refusal m) := by simp [outcome, hresult, hrecord]
      simp [houtcome, hrecord, hsuccesses, hfailures]

/-- The values of a batch are the receipts of its records. -/
theorem values_eq (h : ∀ m ∈ ms, Json.staysWithinLimits m.body = true) :
    Processor.values (ms.map fun m => (m, outcome m)) = (records ms).map receipt := by
  rw [Processor.values, (outcomes_parts h).1, List.map_map]
  rfl

/-! ## The processor of an invocation -/

/-- The environment variables that settings are read from. -/
def settingVariables : List Text :=
  ["SQS_BATCH_SUPPRESS_EXCEPTION", "SQS_BATCH_DELETE_NON_RETRYABLE",
    "SQS_BATCH_NON_RETRYABLE_ERROR_CODES"]

/-- The processor of an invocation whose environment sets none of them. -/
def processor : Processor := ⟨settings [], ⟨[.malformedRecord], []⟩, {}⟩

theorem make_of_unset {env : Environment} (h : ∀ name ∈ settingVariables, env.lookup name = none) :
    Processor.make (settings env) {} = .ok processor := by
  have hsettings : settings env = settings [] := by
    unfold settings Settings.ofEnvironment Environment.get
    rw [h _ (.head _), h _ (.tail _ (.head _)), h _ (.tail _ (.tail _ (.head _)))]
    rfl
  rw [hsettings]
  rfl

/-- **What is refused is not retryable**, and is moved to a dead-letter queue. -/
theorem finals_refused (ms : List Message) :
    Batch.finals processor.triage (ms.map fun m => (m, refusal m)) = ms := by
  have hfinal (m : Message) : Batch.isFinal processor.triage (refusal m) = true := rfl
  simp [Batch.finals, List.filter_map, Function.comp_def, hfinal]

/-! ## An invocation -/

/-- What an invocation returns for the values of a batch. -/
def summary (values : List Value) : Value :=
  .object [("processed", .int values.length), ("results", .list values)]

/-- Whether the parts of a report can be written to the log, if a result is one. -/
def Reportable (x : Except Error (List Value)) : Prop :=
  ∀ failures values code, x = .error (.report failures values code) →
    ∃ entries, Error.reportEntries failures values code = .ok entries

variable {p : Processor} {env : Environment} {event requestId : Value}

/-- Noting a report changes nothing about the result of a batch, if its parts can be written. -/
theorem ends_processNoted {x : Except Error (List Value)} (h : (processNoted p event).Ends t x) :
    ∃ u y, (p.processEvent event handler).Ends u y ∧ calls t = calls u ∧
      (Reportable y → x = y) := by
  unfold processNoted at h
  obtain ⟨t₁, y, t₂, hy, h₂, rfl⟩ := Run.ends_attempt_bind.1 h
  cases y with
  | ok values =>
    obtain ⟨rfl, rfl⟩ := Run.ends_pure.1 h₂
    exact ⟨t₁, _, hy, by simp, fun _ => rfl⟩
  | error e =>
    cases e with
    | report failures values code =>
      obtain ⟨e, he, rfl, rfl⟩ | ⟨entries, -, hlog⟩ := Run.ends_lift_bind.1 h₂
      · refine ⟨t₁, _, hy, by simp, fun hreportable => ?_⟩
        obtain ⟨entries, hentries⟩ := hreportable _ _ _ rfl
        cases he.symm.trans hentries
      · obtain ⟨rest, rfl, rfl, rfl⟩ := Run.ends_log_bind.1 hlog
        exact ⟨t₁, _, hy, by simp, fun _ => rfl⟩
    | _ =>
      obtain ⟨rfl, rfl⟩ := Run.ends_raise.1 h₂
      exact ⟨t₁, _, hy, by simp, fun _ => rfl⟩

/-- The records of an event can be counted if they are messages. -/
theorem exists_recordCount (hms : Message.ofEvent event = .ok ms) :
    ∃ n, recordCount event = .ok n := by
  unfold Message.ofEvent at hms
  unfold recordCount
  cases hrecords : Message.records event with
  | error e => rw [hrecords] at hms; cases hms
  | ok v =>
    rw [hrecords] at hms
    cases hthrough : Message.goThrough v with
    | error e =>
      change Message.goThrough v >>= Message.ofRecords = .ok ms at hms
      rw [hthrough] at hms
      cases hms
    | ok vs => exact ⟨vs.length, by change Message.goThrough v >>= _ = _; rw [hthrough]; rfl⟩

/-- **An invocation processes the messages of its event.** -/
theorem ends_invoke {x : Except Error Value} (h : (invoke env event requestId).Ends t x)
    (hms : Message.ofEvent event = .ok ms) (hmake : Processor.make (settings env) {} = .ok p) :
    ∃ u y, (p.process ms handler).Ends u y ∧ calls t = calls u ∧
      (Reportable y → x = y.map summary) := by
  unfold invoke at h
  obtain ⟨_, bound, rfl, hbound⟩ := h
  obtain ⟨n, hcount⟩ := exists_recordCount hms
  obtain ⟨e, he, -⟩ | ⟨count, -, hcounted⟩ := Run.ends_lift_bind.1 hbound
  · cases hcount.symm.trans he
  obtain ⟨logged, rfl, hlogged⟩ := Run.ends_log_bind.1 hcounted
  obtain ⟨e, he, -⟩ | ⟨q, hq, hmade⟩ := Run.ends_lift_bind.1 hlogged
  · cases hmake.symm.trans he
  obtain rfl := Except.ok.inj (hmake.symm.trans hq)
  obtain ⟨t₁, y, t₂, hy, h₂, rfl⟩ := Run.ends_attempt_bind.1 hmade
  obtain ⟨u, z, hprocess, hcalls, hz⟩ := ends_processNoted hy
  -- the context is unbound before the result is looked at
  obtain ⟨_, unbound, rfl, hunbound⟩ := h₂
  have hend : calls unbound = [] ∧ x = y.map summary := by
    cases y with
    | error e => 
      obtain ⟨rfl, rfl⟩ := Run.ends_raise.1 hunbound
      exact ⟨rfl, rfl⟩
    | ok values =>
      obtain ⟨rfl, rfl⟩ := Run.ends_pure.1 hunbound
      exact ⟨rfl, rfl⟩
  refine ⟨u, z, ?_, ?_, fun hreportable => ?_⟩
  · unfold Processor.processEvent at hprocess
    obtain ⟨e, he, -⟩ | ⟨ns, hns, hprocess⟩ := Run.ends_lift_bind.1 hprocess
    · cases hms.symm.trans he
    · obtain rfl := Except.ok.inj (hms.symm.trans hns)
      exact hprocess
  · change calls (t₁ ++ _ :: unbound) = calls u
    rw [calls_append, hcalls]
    change calls u ++ calls unbound = calls u
    rw [hend.1, List.append_nil]
  · rw [hend.2, hz hreportable]

/-- The failures of a batch: what is no record, with the error for it. -/
def refused (ms : List Message) : List (Message × Error) :=
  (others ms).map fun m => (m, refusal m)

/-- A refusal can be shown, and so can a list of them. -/
theorem exists_lines_refused (ms : List Message) :
    ∃ lines, Error.lines (refused ms) = .ok lines := by
  rw [Error.exists_lines_iff]
  intro f hf
  obtain ⟨m, -, rfl⟩ := List.mem_map.1 hf
  exact .coded .text

/-- The parts of a report of refusals can be written. -/
theorem reportable_refused (ms : List Message) (values : List Value) :
    Reportable (.error (.reported (refused ms) values)) := by
  intro failures values' code heq
  obtain ⟨rfl, rfl, rfl⟩ := Error.report.inj (Except.error.inj heq)
  have htext (f : Message × Error) (hf : f ∈ refused ms) : ∃ t, f.2.text = .ok t := by
    obtain ⟨m, -, rfl⟩ := List.mem_map.1 hf
    exact ⟨_, rfl⟩
  obtain ⟨lines, hlines⟩ := exists_lines_refused ms
  obtain ⟨each, -, hparts⟩ :=
    Error.exists_reportEntries htext hlines values (.text "BATCH_PROCESSING")
  exact ⟨_, hparts⟩

/-- A batch with failures whose requests are fulfilled is cleaned up, and reported. -/
theorem cleaned_of_conclude {rest : List Event} {y : Except Error (List Value)}
    (h : (processor.conclude (ms.map fun m => (m, outcome m))).Ends rest y)
    (hothers : others ms ≠ [])
    (hurls : ∀ m ∈ ms, ∃ u, m.queueUrl = .ok u)
    (hentries : ∀ m ∈ others ms, ∃ entry, m.sendEntry = .ok entry)
    (hbodies : ∀ m ∈ ms, Json.staysWithinLimits m.body = true)
    (hcalls : ∀ c ∈ calls rest, c.isFulfilled = true) :
    y = .error (.reported (refused ms) ((records ms).map receipt)) ∧
      Batch.Cleaned (records ms) (others ms) (calls rest) := by
  obtain ⟨hsuccesses, hfailures⟩ := outcomes_parts hbodies
  have hmessages : (Batch.successes (ms.map fun m => (m, outcome m))).map Prod.fst =
      records ms := by
    rw [hsuccesses, List.map_map]
    exact List.map_id _
  obtain ⟨stop, hreconciled, rfl⟩ := Processor.reconciled_of_failures h (by simpa [hfailures])
  rw [hmessages, hfailures] at hreconciled
  have hfinals := finals_refused (others ms)
  have hstop : stop = none := by
    refine hreconciled.stop_eq_none ?_ rfl (Nat.le_refl 10) hcalls ?_ ?_
    · intro f hf
      obtain ⟨m, -, rfl⟩ := List.mem_map.1 hf
      exact ⟨true, rfl⟩
    · intro m hm
      rw [hfinals] at hm
      rcases List.mem_append.1 hm with hm | hm
      · exact hurls m (List.mem_filter.1 hm).1
      · exact hurls m (List.mem_filter.1 hm).1
    · intro m hm
      rw [hfinals] at hm
      exact hentries m hm
  subst hstop
  constructor
  · obtain ⟨lines, hlines⟩ := exists_lines_refused ms
    rw [refused, ← hfailures] at hlines
    change processor.ending _ = _
    rw [Processor.ending_of_lines hlines, Processor.due, values_eq hbodies, hfailures,
      if_neg (by decide)]
    rfl
  · exact hfinals ▸ hreconciled.cleaned (by decide) hcalls

/-- **An invocation is settled by the bodies of its records.** If no environment variable is set that
settings are read from, the messages tell their queues, those to be moved can be sent, reading the
bodies stays within the limits, and every request is fulfilled, then an invocation with records
only returns their receipts without a call; with others it ends in their report, after the records
were deleted and the others were moved to dead-letter queues. -/
theorem invocation_settled {x : Except Error Value} (h : (invoke env event requestId).Ends t x)
    (hms : Message.ofEvent event = .ok ms)
    (henv : ∀ name ∈ settingVariables, env.lookup name = none)
    (hurls : ∀ m ∈ ms, ∃ u, m.queueUrl = .ok u)
    (hentries : ∀ m ∈ others ms, ∃ entry, m.sendEntry = .ok entry)
    (hbodies : ∀ m ∈ ms, Json.staysWithinLimits m.body = true)
    (hcalls : ∀ c ∈ calls t, c.isFulfilled = true) :
    (others ms = [] → x = .ok (summary ((records ms).map receipt)) ∧ calls t = []) ∧
      (others ms ≠ [] →
        x = .error (.reported (refused ms) ((records ms).map receipt)) ∧
          (∀ f ∈ refused ms, f.2.cls = .malformedRecord ∧
            f.2.code? = some (.text "MALFORMED_RECORD") ∧
            Entries.get? f.2.notes "message_id" = some (.text f.1.id)) ∧
          Batch.Cleaned (records ms) (others ms) (calls t)) := by
  obtain ⟨u, y, hprocess, hsame, hx⟩ := ends_invoke h hms (make_of_unset henv)
  obtain ⟨handled, outcomes, rest, rfl, hstages⟩ := Processor.ends_process.1 hprocess
  cases hstages with
  | aborted hhandling => cases (outcomes_of_handling rfl hhandling).2
  | concluded hhandling hconclude =>
    obtain ⟨hnone, houtcomes⟩ := outcomes_of_handling rfl hhandling
    obtain rfl := Except.ok.inj houtcomes
    rw [calls_append, hnone, List.nil_append] at hsame
    rw [hsame] at hcalls ⊢
    constructor
    · intro hothers
      have hfailures : Batch.failures (ms.map fun m => (m, outcome m)) = [] := by
        rw [(outcomes_parts hbodies).2, hothers, List.map_nil]
      refine ⟨?_, Processor.calls_of_conclude hconclude hfailures⟩
      cases Processor.concludes_of_ends hconclude with
      | acknowledged =>
        rw [hx nofun, values_eq hbodies]
        rfl
      | broken hne | suppressed hne | reported hne | unreported hne => exact absurd hfailures hne
    · intro hothers
      obtain ⟨rfl, hcleaned⟩ :=
        cleaned_of_conclude hconclude hothers hurls hentries hbodies hcalls
      have hrefused (f : Message × Error) (hf : f ∈ refused ms) : f.2 = refusal f.1 := by
        obtain ⟨m, -, rfl⟩ := List.mem_map.1 hf
        rfl
      refine ⟨hx (reportable_refused ms _), fun f hf => ?_, hcleaned⟩
      rw [hrefused f hf]
      exact ⟨rfl, rfl, rfl⟩

end Consumer

namespace Sample

/-- The record of a message without attributes. -/
def record (m : Message) : Value :=
  .object [("messageId", .text m.id), ("receiptHandle", .text m.receiptHandle),
    ("body", .text m.body), ("eventSourceARN", .text m.source)]

/-- The event of `orders`. -/
def ordersEvent : Value := .object [("Records", .list (orders.map record))]

/-- A service that does what it is asked to do. -/
def obliging : Request → Except Error Value
  | .attributes url names => service (.attributes url names)
  | _ => .ok (.object [])

end Sample

namespace Consumer

/-- The invocation with `orders`: `a` is a record, `b` and `c` are not. -/
theorem invocation_settled_sample : ∃ t x,
    (invoke [] Sample.ordersEvent (.text "1")).Ends t x ∧
      Message.ofEvent Sample.ordersEvent = .ok Sample.orders ∧
      (∀ c ∈ calls t, c.isFulfilled = true) ∧
      records Sample.orders = Sample.orders.take 1 ∧ others Sample.orders = Sample.orders.drop 1 ∧
      x = .error (.reported (refused Sample.orders) [receipt (Sample.order "a" "\x7b\x7d")]) ∧
      Batch.Cleaned (records Sample.orders) (others Sample.orders) (calls t) := by
  have h := Run.ends_exec (.service Sample.obliging)
    (invoke [] Sample.ordersEvent (.text "1")) ()
  have hms : Message.ofEvent Sample.ordersEvent = .ok Sample.orders := by decide +kernel
  have hurls : ∀ m ∈ Sample.orders, m.queueUrl = .ok Sample.ordersUrl := by decide +kernel
  have hcalls : ∀ c ∈ calls ((invoke [] Sample.ordersEvent (.text "1")).exec
      (.service Sample.obliging) ()).1, c.isFulfilled = true := by decide +kernel
  have hrecords : records Sample.orders = Sample.orders.take 1 := by decide +kernel
  have hothers : others Sample.orders = Sample.orders.drop 1 := by decide +kernel
  have hentries : ∀ m ∈ others Sample.orders, ∃ entry, m.sendEntry = .ok entry := by
    rw [hothers]
    exact List.forall_mem_cons.2 ⟨⟨_, rfl⟩, List.forall_mem_singleton.2 ⟨_, rfl⟩⟩
  have hbodies : ∀ m ∈ Sample.orders, Json.staysWithinLimits m.body = true := by decide +kernel
  obtain ⟨hreport, -, hcleaned⟩ := (invocation_settled h hms (fun _ _ => rfl)
    (fun m hm => ⟨_, hurls m hm⟩) hentries hbodies hcalls).2
    (by rw [hothers]; exact List.cons_ne_nil _ _)
  exact ⟨_, _, h, hms, hcalls, hrecords, hothers, by rw [hreport, hrecords]; rfl, hcleaned⟩

end Consumer
end PartialBatch
