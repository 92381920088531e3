/-
# Settings

How a batch with failures is dealt with. A flag may be any value, and is set if it counts as
true. A size is valid from 1 to the most entries of a request; that is checked when settings
are made, so settings at hand are valid.

| environment variable | setting |
| --- | --- |
| `SQS_BATCH_SUPPRESS_EXCEPTION` | return the values of the others instead of failing |
| `SQS_BATCH_DELETE_NON_RETRYABLE` | delete what is not retryable instead of moving it |
| `SQS_BATCH_NON_RETRYABLE_ERROR_CODES` | more codes, between commas |

A variable sets its flag with `1`, `true`, `yes` and `on`, in either case and with blanks
around. Codes are taken without the blanks around them, and empty ones are dropped.
-/

import PartialBatch.Batch.Chunk
import PartialBatch.Text.Blank
import PartialBatch.Triage

namespace PartialBatch

/-- Environment variables with their texts. -/
abbrev Environment := List (Text × Text)

/-- The text of an environment variable, or what stands for it if it is not set. -/
def Environment.get (env : Environment) (name otherwise : Text) : Text :=
  (env.lookup name).getD otherwise

/-- How a batch with failures is dealt with. -/
structure Settings where
  suppress : Value := .bool false
  kinds : List Kind := []
  deleteNonRetryable : Value := .bool false
  maxBatchSize : Size := 10
  valid : (maxBatchSize.atLeast 1 && maxBatchSize.atMost maxEntries) = true := by decide
  deriving Repr

namespace Settings

/-- Settings of a given size, if it is valid. -/
def make (suppress : Value) (kinds : List Kind) (deleteNonRetryable : Value) (size : Size) :
    Except Error Settings :=
  if valid : (size.atLeast 1 && size.atMost maxEntries) = true then
    .ok ⟨suppress, kinds, deleteNonRetryable, size, valid⟩
  else do
    let t ← Error.telling size.value
    .error (.saying .valueError ("max_batch_size must be between 1 and 10, got " ++ t))

/-! ## Settings from the environment -/

/-- An ASCII capital letter in lower case; every other code point as it is. -/
def lower (c : CodePoint) : CodePoint :=
  if 65 ≤ c.number ∧ c.number ≤ 90 then CodePoint.ofNumber (c.number + 32) else c

/-- Whether a flag is on. -/
def isOn (t : Text) : Bool :=
  let words : List Text := ["1", "true", "yes", "on"]
  words.contains (t.strip.map lower)

/-- The codes of a list between commas. -/
def codes (t : Text) : List Text :=
  ((t.splitOn ',').map Text.strip).filter (!·.isEmpty)

/-- Settings from the environment; the codes found there follow the given kinds. -/
def ofEnvironment (env : Environment) (kinds : List Kind) : Settings where
  suppress := .bool (isOn (env.get "SQS_BATCH_SUPPRESS_EXCEPTION" []))
  kinds := kinds ++ (codes (env.get "SQS_BATCH_NON_RETRYABLE_ERROR_CODES" [])).map .code
  deleteNonRetryable := .bool (isOn (env.get "SQS_BATCH_DELETE_NON_RETRYABLE" []))

end Settings
end PartialBatch
