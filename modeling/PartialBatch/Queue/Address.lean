/-
# Queue addresses

A queue is known by its region, its account and its name. Messages and redrive policies
tell it by its resource name, requests by its URL:

| form | text |
| --- | --- |
| resource name | `arn:<partition>:sqs:<region>:<account>:<name>` |
| URL | `https://sqs.<region>.amazonaws.com/<account>/<name>` |

A resource name has six fields between colons; any of the four free ones may be empty. The
partition is not part of the address.
-/

import PartialBatch.Error.Basic

namespace PartialBatch

/-- The address of a queue. -/
structure QueueAddress where
  region : Text
  account : Text
  name : Text
  deriving DecidableEq, Repr

namespace QueueAddress

/-- The address that a resource name tells. -/
def ofArn? (arn : Text) : Option QueueAddress :=
  match arn.splitOn ':' with
  | [scheme, _, service, region, account, name] =>
    if scheme = "arn" ∧ service = "sqs" then some ⟨region, account, name⟩ else none
  | _ => none

/-- The URL of a queue. -/
def url (a : QueueAddress) : Text :=
  "https://sqs." ++ a.region ++ ".amazonaws.com/" ++ a.account ++ "/" ++ a.name

/-- The URL of the queue that a resource name tells. -/
def urlOfArn (arn : Text) : Except Error Text :=
  match ofArn? arn with
  | some a => .ok a.url
  | none => .error (.saying .valueError ("Not an SQS queue ARN: " ++ arn.quoted))

end QueueAddress

/-- The URL of the queue that a message came from. -/
def Message.queueUrl (m : Message) : Except Error Text := QueueAddress.urlOfArn m.source

end PartialBatch
