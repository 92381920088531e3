/-
# Suppressing failures

Whether failures are suppressed is looked at last: a batch is handled, counted and reconciled, and its
report is made, without it (`settling`), and only then something is told (`telling`).

| outcomes | failures are reported | failures are suppressed |
| --- | --- | --- |
| none failed | the values | the values |
| some failed | the report, with the values | a line of the log, then the values |

So two runs of a batch in the same surroundings, one that reports its failures and one that
suppresses them, are the same up to that point, and an error that comes before it ends both.  After
it neither asks for anything but that one line (`suppression_only_reports`).
-/

import PartialBatch.Proofs.Batch.NoLoss

namespace PartialBatch
namespace Processor

variable {p : Processor} {ms : List Message} {handler : Handler}

/-- The processor with another setting for suppression. -/
def suppressing (p : Processor) (flag : Value) : Processor :=
  { p with settings := { p.settings with suppress := flag } }

/-- Settings that differ in suppression make processors that differ in it. -/
theorem make_suppressing (settings : Settings) (hooks : Hooks) (flag : Value) :
    make { settings with suppress := flag } hooks =
      (make settings hooks).map (·.suppressing flag) := by
  unfold make
  change (Triage.ofKinds settings.kinds >>= fun _ => _) = _
  cases Triage.ofKinds settings.kinds <;> rfl

/-! ## What is done, and what is told -/

/-- What is done about outcomes: they are counted, and if messages failed the queues are
reconciled and the report is made. -/
def settle (p : Processor) (outcomes : List (Message × Outcome)) : Run Unit := do
  Run.log .info "batch_processed"
    [("total", .int outcomes.length), ("succeeded", .int (Batch.successes outcomes).length),
      ("failed", .int (Batch.failures outcomes).length)]
  if (Batch.failures outcomes).isEmpty then pure ()
  else
    p.reconciliation outcomes
    let _ ← Error.reporting (Batch.failures outcomes) (values outcomes)

/-- What is told of outcomes after that. -/
def telling (flag : Value) (outcomes : List (Message × Outcome)) : Run (List Value) :=
  if (Batch.failures outcomes).isEmpty then pure (values outcomes)
  else if flag.truthy then do
    Run.log .debug "batch_failures_suppressed"
      [("failed_count", .int (Batch.failures outcomes).length),
        ("message_ids", .list ((Batch.failures outcomes).map fun f => .text f.1.id))]
    pure (values outcomes)
  else .raise (.reported (Batch.failures outcomes) (values outcomes))

/-- What is done about a batch. -/
def settling (p : Processor) (ms : List Message) (handler : Handler) :
    Run (List (Message × Outcome)) := do
  let outcomes ← p.handling ms handler
  p.settle outcomes
  pure outcomes

theorem conclude_suppressing (flag : Value) (outcomes : List (Message × Outcome)) :
    (p.suppressing flag).conclude outcomes = p.settle outcomes >>= fun _ => telling flag outcomes := by
  unfold conclude settle telling reconciliation
  rw [Run.bind_assoc]
  refine congrArg (_ >>= ·) (funext fun _ => ?_)
  by_cases hfailures : (Batch.failures outcomes).isEmpty = true
  · simp only [if_pos hfailures]
    rfl
  simp only [if_neg hfailures, Run.bind_assoc]
  refine congrArg (_ >>= ·) (funext fun _ => ?_)
  unfold Error.reporting
  cases Error.lines (Batch.failures outcomes) <;> rfl

/-- **Suppression has no part in what is done about a batch.** -/
theorem process_suppressing (flag : Value) :
    (p.suppressing flag).process ms handler = p.settling ms handler >>= telling flag := by
  rw [process_eq, settling, Run.bind_assoc]
  change p.handling ms handler >>= (p.suppressing flag).conclude = _
  congr 1
  funext outcomes
  rw [conclude_suppressing, Run.bind_assoc]
  rfl

section Telling

variable {flag : Value} {outcomes : List (Message × Outcome)}

/-- Without failures the values are told, whatever the flag is. -/
theorem telling_of_nil (hfailures : Batch.failures outcomes = []) :
    telling flag outcomes = pure (values outcomes) := by
  rw [telling, hfailures]
  rfl

/-- Failures are reported if the flag is not set. -/
theorem telling_of_loud (hfailures : Batch.failures outcomes ≠ []) (hflag : flag.truthy = false) :
    telling flag outcomes = .raise (.reported (Batch.failures outcomes) (values outcomes)) := by
  rw [telling, if_neg (by simpa using hfailures), if_neg (by simp [hflag])]

/-- Failures are told in a line if the flag is set. -/
theorem telling_of_quiet (hfailures : Batch.failures outcomes ≠ []) (hflag : flag.truthy = true) :
    telling flag outcomes = .ask (suppressedLine outcomes).ask fun _ => .done (values outcomes) := by
  rw [telling, if_neg (by simpa using hfailures), if_pos hflag]
  rfl

end Telling

/-! ## Two runs -/

/-- **Suppression changes only how the outcome is reported.** Of two runs of a batch in the same
surroundings the first reports failures and the second suppresses them. Either both end in the
error that ended what is done about the batch, or both end in the values since no message failed,
or the first ends in the report and the second in the values of that report. All their events are
the same, in the same order, but that in the last case the second run writes the line with the ids
of the failed messages at its end. -/
theorem suppression_only_reports {σ : Type} {w : Run.World σ} {s s₁ s₂ : σ} {loud quiet : Value}
    {t t' : List Event} {x x' : Except Error (List Value)}
    (hloud : loud.truthy = false) (hquiet : quiet.truthy = true)
    (h : ((p.suppressing loud).process ms handler).exec w s = (t, x, s₁))
    (h' : ((p.suppressing quiet).process ms handler).exec w s = (t', x', s₂)) :
    (∃ e, (p.settling ms handler).Ends t (.error e) ∧ x = .error e ∧ x' = .error e ∧ t' = t) ∨
    ∃ outcomes, (p.settling ms handler).Ends t (.ok outcomes) ∧ x' = .ok (values outcomes) ∧
      ((Batch.failures outcomes = [] ∧ x = .ok (values outcomes) ∧ t' = t) ∨
        (Batch.failures outcomes ≠ [] ∧
          x = .error (.reported (Batch.failures outcomes) (values outcomes)) ∧
          t' = t ++ [suppressedLine outcomes])) := by
  have hends := Run.ends_exec w (p.settling ms handler) s
  rcases hsettling : (p.settling ms handler).exec w s with ⟨u, e | outcomes, s'⟩
  · rw [process_suppressing, Run.exec_bind_of_error hsettling] at h h'
    rw [hsettling] at hends
    cases h
    cases h'
    exact .inl ⟨e, hends, rfl, rfl, rfl⟩
  rw [process_suppressing, Run.exec_bind_of_ok hsettling] at h h'
  rw [hsettling] at hends
  refine .inr ⟨outcomes, ?_⟩
  by_cases hfailures : Batch.failures outcomes = []
  · rw [telling_of_nil hfailures, Run.exec_pure, List.append_nil] at h h'
    cases h
    cases h'
    exact ⟨hends, rfl, .inl ⟨hfailures, rfl, rfl⟩⟩
  · rw [telling_of_loud hfailures hloud, Run.exec_raise, List.append_nil] at h
    rw [telling_of_quiet hfailures hquiet] at h'
    cases h
    cases h'
    exact ⟨hends, rfl, .inr ⟨hfailures, rfl, rfl⟩⟩

/-- Such runs: `a` succeeds, and `b` and `c` are refused. -/
theorem suppression_only_reports_sample : ∃ t t' x x' s₁ s₂,
    ((Sample.processor.suppressing (.bool false)).process Sample.orders Consumer.handler).exec
        (.service Sample.service) () = (t, x, s₁) ∧
      ((Sample.processor.suppressing (.bool true)).process Sample.orders Consumer.handler).exec
        (.service Sample.service) () = (t', x', s₂) ∧
      (calls t).map Call.request = Sample.requests ∧
      x = .error (.reported (Batch.failures Sample.outcomes) (values Sample.outcomes)) ∧
      x' = .ok (values Sample.outcomes) ∧ ∃ outcomes, t' = t ++ [suppressedLine outcomes] := by
  obtain ⟨t, x, s₁, h⟩ : ∃ t x s₁, ((Sample.processor.suppressing (.bool false)).process
      Sample.orders Consumer.handler).exec (.service Sample.service) () = (t, x, s₁) :=
    ⟨_, _, _, rfl⟩
  obtain ⟨t', x', s₂, h'⟩ : ∃ t x s₁, ((Sample.processor.suppressing (.bool true)).process
      Sample.orders Consumer.handler).exec (.service Sample.service) () = (t, x, s₁) :=
    ⟨_, _, _, rfl⟩
  have hcalls : (calls (((Sample.processor.suppressing (.bool false)).process Sample.orders
      Consumer.handler).exec (.service Sample.service) ()).1).map Call.request =
        Sample.requests := by decide +kernel
  have hloud : (((Sample.processor.suppressing (.bool false)).process Sample.orders
      Consumer.handler).exec (.service Sample.service) ()).2.1 =
        .error (.reported (Batch.failures Sample.outcomes) (values Sample.outcomes)) := by
    decide +kernel
  have hquiet : (((Sample.processor.suppressing (.bool true)).process Sample.orders
      Consumer.handler).exec (.service Sample.service) ()).2.1 = .ok (values Sample.outcomes) := by
    decide +kernel
  rw [h] at hcalls hloud
  rw [h'] at hquiet
  refine ⟨t, t', x, x', s₁, s₂, h, h', hcalls, hloud, hquiet, ?_⟩
  obtain ⟨e, -, -, hx', -⟩ | ⟨outcomes, -, -, ⟨-, hx, -⟩ | ⟨-, -, ht⟩⟩ :=
    suppression_only_reports (by decide) (by decide) h h'
  · cases hquiet.symm.trans hx'
  · cases hloud.symm.trans hx
  · exact ⟨outcomes, ht⟩

end Processor
end PartialBatch
