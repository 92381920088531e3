/-
# Redrive policies

The redrive policy of a queue is a JSON text among its attributes. It names the dead-letter
queue, and it may tell how often a message is received before the service itself moves it
there.

| part | key | otherwise | accepted |
| --- | --- | --- | --- |
| `target` | `deadLetterTargetArn` | `dead_letter_target_arn` | a text |
| `maxReceiveCount` | `maxReceiveCount` | `max_receive_count` | null, or what names an integer |

Whatever is wrong with the text, its depth apart, one error says so: `RedrivePolicyError`,
with the queue and the text as it is. Where fields are refused its message only marks their
place, and the faults are told apart from it.
-/

import PartialBatch.Json.Reader
import PartialBatch.Error.Making
import PartialBatch.Queue.Address

namespace PartialBatch

/-- The dead-letter configuration of a queue. -/
structure RedrivePolicy where
  target : Text
  maxReceiveCount : Option Int
  deriving DecidableEq, Repr

namespace RedrivePolicy

/-- The policy whose fields are the given entries. -/
def ofEntries (es : Entries) : Checked RedrivePolicy :=
  Checked.pure RedrivePolicy.mk
    |>.seq (FieldReader.text.field "deadLetterTargetArn" "dead_letter_target_arn" none es)
    |>.seq (FieldReader.integer.optional.field "maxReceiveCount" "max_receive_count" (some none) es)

/-- The policy that a value is. -/
def ofValue : Value → Checked RedrivePolicy
  | .object es => ofEntries es
  | _ => .error (.single [] (.record "RedrivePolicy"))

/-- The error for a policy of the queue `queueUrl` that cannot be used. -/
def malformed (queueUrl raw : Value) (what : Text) (cause : Cause) : Error :=
  .redrivePolicy ("Malformed redrive policy: " ++ what) queueUrl raw cause

/-- The policy that an attribute of the queue `queueUrl` holds. -/
def ofAttribute (queueUrl raw : Value) : Except Error RedrivePolicy :=
  match raw with
  | .text t =>
    match Json.read t with
    | .error (.depth container) =>
      .error (.saying .recursionError (Json.Fault.depth container).text)
    | .error fault => .error (malformed queueUrl raw fault.text .told)
    | .ok v =>
      match ofValue v with
      | .ok policy => .ok policy
      | .error faults => .error (malformed queueUrl raw "<validation>" (.fields faults.toList))
  | _ => .error (malformed queueUrl raw "not a text" .type)

/-- The URL of the dead-letter queue. -/
def deadLetterUrl (p : RedrivePolicy) : Except Error Text :=
  match QueueAddress.ofArn? p.target with
  | some a => .ok a.url
  | none =>
    let what := "Not an SQS queue ARN: " ++ p.target.quoted
    .error (.redrivePolicy what .null (.text p.target) .told)

end RedrivePolicy
end PartialBatch
