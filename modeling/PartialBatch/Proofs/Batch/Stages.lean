/-
# The stages of a batch

A processor first gives every message its outcome and then, knowing all of them, concludes the
batch. What happens in the first stage is up to the handler and the hooks, who may do whatever
they like; the second stage is the processor's own.

| stage | run | ends in |
| --- | --- | --- |
| handling | `handling` | the outcomes, or the error that ended it |
| conclusion | `conclude` | values, report, or the error that stands in the way of the report |

`ends_process` cuts a course of a batch where the last message got its outcome, and
`concludes_of_ends` lists the five ways in which a batch is concluded.  A reconciliation that ends
well leads to the `ending`, which is what is `due` if the errors of the batch can be shown.
-/

import PartialBatch.Batch.Processor
import PartialBatch.Proofs.Error.Shown
import PartialBatch.Proofs.Queue.Calls

namespace PartialBatch

/-! ## Outcomes -/

namespace Batch

variable {outcomes : List (Message × Outcome)} {m : Message}

theorem mem_successes {v : Value} : (m, v) ∈ successes outcomes ↔ (m, .success v) ∈ outcomes := by
  unfold successes
  rw [List.mem_filterMap]
  constructor
  · rintro ⟨⟨n, o⟩, hmem, heq⟩
    cases o with
    | success w =>
      obtain ⟨rfl, rfl⟩ := Prod.mk.inj (Option.some.inj heq)
      exact hmem
    | failure e => cases heq
  · intro h
    exact ⟨_, h, rfl⟩

theorem mem_failures {e : Error} : (m, e) ∈ failures outcomes ↔ (m, .failure e) ∈ outcomes := by
  unfold failures
  rw [List.mem_filterMap]
  constructor
  · rintro ⟨⟨n, o⟩, hmem, heq⟩
    cases o with
    | success v => cases heq
    | failure f =>
      obtain ⟨rfl, rfl⟩ := Prod.mk.inj (Option.some.inj heq)
      exact hmem
  · intro h
    exact ⟨_, h, rfl⟩

end Batch

/-! ## The stages -/

namespace Processor

variable {p : Processor} {ms : List Message} {handler : Handler}
  {outcomes : List (Message × Outcome)} {t : List Event} {x : Except Error (List Value)}

/-- Resolves the handler and handles messages with it. -/
def handling (p : Processor) (ms : List Message) (handler : Handler) :
    Run (List (Message × Outcome)) := do
  let callee ← handler.resolve
  Batch.handleAll callee p.hooks ms

/-- Reconciles the queues after the outcomes of a batch. -/
def reconciliation (p : Processor) (outcomes : List (Message × Outcome)) : Run Unit :=
  Batch.reconcile p.settings p.triage ((Batch.successes outcomes).map Prod.fst)
    (Batch.failures outcomes)

/-- The values of the messages that succeeded. -/
def values (outcomes : List (Message × Outcome)) : List Value :=
  (Batch.successes outcomes).map Prod.snd

/-- What a batch with failures is due to end in. -/
def due (p : Processor) (outcomes : List (Message × Outcome)) : Except Error (List Value) :=
  if p.settings.suppress.truthy then .ok (values outcomes)
  else .error (.reported (Batch.failures outcomes) (values outcomes))

/-- What a batch with failures ends in once its queues are reconciled: what is due, if there is a
report to make. -/
def ending (p : Processor) (outcomes : List (Message × Outcome)) : Except Error (List Value) := do
  let _ ← Error.lines (Batch.failures outcomes)
  p.due outcomes

theorem ending_of_lines {lines : Text} (h : Error.lines (Batch.failures outcomes) = .ok lines) :
    p.ending outcomes = p.due outcomes := by
  rw [ending, h]
  rfl

theorem ending_of_lines_eq_error {e : Error}
    (h : Error.lines (Batch.failures outcomes) = .error e) : p.ending outcomes = .error e := by
  rw [ending, h]
  rfl

/-- A batch that ends as it is due has a report to make. -/
theorem exists_lines_of_ending (h : p.ending outcomes = p.due outcomes) :
    ∃ lines, Error.lines (Batch.failures outcomes) = .ok lines := by
  cases hlines : Error.lines (Batch.failures outcomes) with
  | ok lines => exact ⟨lines, rfl⟩
  | error e =>
    rw [ending_of_lines_eq_error hlines, due] at h
    split at h
    · cases h
    -- an error of showing is no report
    · obtain rfl := Except.error.inj h
      obtain hwrong | hdeep := (Error.raises_lines _ _ hlines).isA
      · cases hwrong
      · cases hdeep

/-- A course of a batch in two parts: up to the last outcome, and from there. Without outcomes
for all messages there is no second part. -/
inductive Stages (p : Processor) (ms : List Message) (handler : Handler) :
    List Event → List (Message × Outcome) → List Event → Except Error (List Value) → Prop
  | aborted {t : List Event} {e : Error} (h : (p.handling ms handler).Ends t (.error e)) :
      Stages p ms handler t [] [] (.error e)
  | concluded {t u : List Event} {outcomes : List (Message × Outcome)}
      {x : Except Error (List Value)} (hhandling : (p.handling ms handler).Ends t (.ok outcomes))
      (hconclude : (p.conclude outcomes).Ends u x) : Stages p ms handler t outcomes u x

theorem process_eq : p.process ms handler = p.handling ms handler >>= p.conclude :=
  (Run.bind_assoc ..).symm

/-- **Every course of a batch has its two stages**, and every two stages are a course. -/
theorem ends_process : (p.process ms handler).Ends t x ↔
    ∃ handled outcomes rest, t = handled ++ rest ∧ p.Stages ms handler handled outcomes rest x := by
  rw [process_eq, Run.ends_bind]
  constructor
  · rintro (⟨e, h, rfl⟩ | ⟨t₁, outcomes, t₂, h₁, h₂, rfl⟩)
    · exact ⟨t, [], [], (List.append_nil t).symm, .aborted h⟩
    · exact ⟨t₁, outcomes, t₂, rfl, .concluded h₁ h₂⟩
  · rintro ⟨t₁, outcomes, t₂, rfl, h⟩
    cases h with
    | aborted h => exact .inl ⟨_, by rwa [List.append_nil], rfl⟩
    | concluded h₁ h₂ => exact .inr ⟨t₁, outcomes, t₂, h₁, h₂, rfl⟩

/-- What follows the outcomes of a batch is its conclusion. -/
theorem ends_process_append {rest : List Event}
    (h : (p.handling ms handler).Ends t (.ok outcomes)) :
    (p.process ms handler).Ends (t ++ rest) x ↔ (p.conclude outcomes).Ends rest x := by
  rw [process_eq]
  exact Run.ends_bind_append h

/-! ## The conclusion -/

/-- The line that counts the outcomes of a batch. -/
def countLine (outcomes : List (Message × Outcome)) : Event :=
  ⟨.log (.ofValues .info "batch_processed" [("total", .int outcomes.length),
    ("succeeded", .int (Batch.successes outcomes).length),
    ("failed", .int (Batch.failures outcomes).length)]), ()⟩

/-- The line that is logged in the place of a report. -/
def suppressedLine (outcomes : List (Message × Outcome)) : Event :=
  ⟨.log (.ofValues .debug "batch_failures_suppressed"
    [("failed_count", .int (Batch.failures outcomes).length),
      ("message_ids", .list ((Batch.failures outcomes).map fun f => .text f.1.id))]), ()⟩

/-- The calls after the outcomes of a batch are those of a conclusion. -/
theorem Stages.exists_conclusion {handled rest : List Event}
    (h : p.Stages ms handler handled outcomes rest x) :
    ∃ u y, (p.conclude outcomes).Ends u y ∧ calls u = calls rest := by
  cases h with
  | aborted => exact ⟨[countLine []], .ok [], Run.ends_log_bind.2 ⟨[], rfl, rfl, rfl⟩, rfl⟩
  | concluded _ hconclude => exact ⟨rest, x, hconclude, rfl⟩

/-- How a batch is concluded. -/
inductive Concludes (p : Processor) (outcomes : List (Message × Outcome)) :
    List Event → Except Error (List Value) → Prop
  /-- No message failed. -/
  | acknowledged (hfailures : Batch.failures outcomes = []) :
      Concludes p outcomes [countLine outcomes] (.ok (values outcomes))
  /-- The reconciliation ended in an error. -/
  | broken {t : List Event} {e : Error} (hfailures : Batch.failures outcomes ≠ [])
      (h : (p.reconciliation outcomes).Ends t (.error e)) :
      Concludes p outcomes (countLine outcomes :: t) (.error e)
  /-- Failures are suppressed. -/
  | suppressed {t : List Event} {lines : Text} (hfailures : Batch.failures outcomes ≠ [])
      (hlines : Error.lines (Batch.failures outcomes) = .ok lines)
      (hsuppress : p.settings.suppress.truthy = true)
      (h : (p.reconciliation outcomes).Ends t (.ok ())) :
      Concludes p outcomes (countLine outcomes :: (t ++ [suppressedLine outcomes]))
        (.ok (values outcomes))
  /-- Failures are reported. -/
  | reported {t : List Event} {lines : Text} (hfailures : Batch.failures outcomes ≠ [])
      (hlines : Error.lines (Batch.failures outcomes) = .ok lines)
      (hsuppress : p.settings.suppress.truthy = false)
      (h : (p.reconciliation outcomes).Ends t (.ok ())) :
      Concludes p outcomes (countLine outcomes :: t)
        (.error (.reported (Batch.failures outcomes) (values outcomes)))
  /-- An error of the batch cannot be shown, so there is no report to make. -/
  | unreported {t : List Event} {e : Error} (hfailures : Batch.failures outcomes ≠ [])
      (hlines : Error.lines (Batch.failures outcomes) = .error e)
      (h : (p.reconciliation outcomes).Ends t (.ok ())) :
      Concludes p outcomes (countLine outcomes :: t) (.error e)

/-- **Every batch is concluded in one of the five ways.** -/
theorem concludes_of_ends (h : (p.conclude outcomes).Ends t x) : p.Concludes outcomes t x := by
  unfold conclude at h
  obtain ⟨rest, rfl, hrest⟩ := Run.ends_log_bind.1 h
  clear h
  split at hrest
  · rename_i hfailures
    obtain ⟨rfl, rfl⟩ := Run.ends_pure.1 hrest
    exact .acknowledged (List.isEmpty_iff.1 hfailures)
  rename_i hfailures
  replace hfailures : Batch.failures outcomes ≠ [] := fun hnil => hfailures (by rw [hnil]; rfl)
  obtain ⟨e, hreconcile, rfl⟩ | ⟨t₁, _, t₂, hreconcile, hend, rfl⟩ := Run.ends_bind.1 hrest
  · exact .broken hfailures hreconcile
  cases hlines : Error.lines (Batch.failures outcomes) with
  | error e =>
    rw [Error.reporting, hlines] at hend
    obtain ⟨rfl, rfl⟩ := Run.ends_raise.1 hend
    rw [List.append_nil]
    exact .unreported hfailures hlines hreconcile
  | ok lines =>
    rw [Error.reporting, hlines] at hend
    change Run.Ends (if _ then _ else _) _ _ at hend
    split at hend
    · rename_i hsuppress
      obtain ⟨rest, rfl, rfl, rfl⟩ := Run.ends_log_bind.1 hend
      exact .suppressed hfailures hlines hsuppress hreconcile
    · rename_i hsuppress
      obtain ⟨rfl, rfl⟩ := Run.ends_raise.1 hend
      rw [List.append_nil]
      exact .reported hfailures hlines (Bool.eq_false_iff.2 hsuppress) hreconcile

/-- Without a failure a batch is concluded without a call. -/
theorem calls_of_conclude (h : (p.conclude outcomes).Ends t x)
    (hfailures : Batch.failures outcomes = []) : calls t = [] := by
  cases concludes_of_ends h with
  | acknowledged => rfl
  | broken hne | suppressed hne | reported hne | unreported hne => exact absurd hfailures hne

/-- Without a failure a batch ends in the values of its messages. -/
theorem values_of_conclude (h : (p.conclude outcomes).Ends t x)
    (hfailures : Batch.failures outcomes = []) : x = .ok (values outcomes) := by
  cases concludes_of_ends h with
  | acknowledged => rfl
  | broken hne | suppressed hne | reported hne | unreported hne => exact absurd hfailures hne

end Processor
end PartialBatch
