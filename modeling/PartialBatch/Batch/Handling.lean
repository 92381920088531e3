/-
# Handling the messages of a batch

The messages are handled one at a time, in order, and each gets an outcome of its own.

| handler | success hook | outcome | failure hook |
| --- | --- | --- | --- |
| returns a value | returns, or is absent | success with the value | not called |
| returns a value | raises | failure with the hook's error | called |
| raises | not called | failure with its error | called |

A failure is noted in the log before the failure hook is called, and so is an error which
that hook raises. An error that stands directly below the root class is no outcome: it ends
the run. The text of an error is asked for to write it to the log; an error without a text
raises another one there, which nothing guards.
-/

import PartialBatch.Handler

namespace PartialBatch

/-- What became of a message. -/
inductive Outcome
  | success (value : Value)
  | failure (error : Error)
  deriving DecidableEq, Repr

namespace Batch

/-- The value of an attempt, or its error if a consumer answers for it; any other error is
raised. -/
def guarded {α : Type} (r : Run α) : Run (Except Error α) := do
  match ← r.attempt with
  | .ok a => pure (.ok a)
  | .error e => if e.isException then pure (.error e) else .raise e

/-- Handles a message and calls the success hook. -/
def produce (handler : Callee) (hooks : Hooks) (m : Message) : Run Value := do
  let v ← handler m
  match hooks.succeeded with
  | some hook => hook m v
  | none => pure ()
  pure v

/-- Calls the failure hook; an error that it raises is noted in the log. -/
def notifyFailure (hooks : Hooks) (m : Message) (e : Error) : Run Unit :=
  match hooks.failed with
  | none => pure ()
  | some hook => do
    match ← guarded (hook m e) with
    | .ok () => pure ()
    | .error hookError =>
      Run.log .warning "failure_hook_failed"
        [("message_id", .text m.id), ("error", .text (← hookError.text))]

/-- Handles a message, with the hooks. -/
def handle (handler : Callee) (hooks : Hooks) (m : Message) : Run Outcome := do
  match ← guarded (produce handler hooks m) with
  | .ok v => pure (.success v)
  | .error e =>
    Run.log .error "message_processing_failed"
      [("message_id", .text m.id), ("error_type", .text e.cls.name), ("error", .text (← e.text))]
    notifyFailure hooks m e
    pure (.failure e)

/-- Handles messages in order, and gives each with its outcome. -/
def handleAll (handler : Callee) (hooks : Hooks) : List Message → Run (List (Message × Outcome))
  | [] => pure []
  | m :: rest => do
    let outcome ← handle handler hooks m
    let others ← handleAll handler hooks rest
    pure ((m, outcome) :: others)

/-- The messages that succeeded, with their values. -/
def successes (outcomes : List (Message × Outcome)) : List (Message × Value) :=
  outcomes.filterMap fun
    | (m, .success v) => some (m, v)
    | _ => none

/-- The messages that failed, with their errors. -/
def failures (outcomes : List (Message × Outcome)) : List (Message × Error) :=
  outcomes.filterMap fun
    | (m, .failure e) => some (m, e)
    | _ => none

end Batch
end PartialBatch
