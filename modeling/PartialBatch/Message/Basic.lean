/-
# Messages

A message as the queue delivers it to a consumer. Its receipt handle is what deletes it,
the name of its source tells which queue it came from, and its body and its attributes are
opaque.
-/

import PartialBatch.Value.Basic

namespace PartialBatch

/-- One message of a batch. -/
structure Message where
  id : Text
  receiptHandle : Text
  body : Text
  source : Text
  attributes : List (Text × Text)
  messageAttributes : List (Text × Entries)
  bodyDigest : Option Text
  region : Option Text
  deriving DecidableEq, Repr, Inhabited

namespace Message

/-- A message as an object, one entry for each part. -/
def toEntries (m : Message) : Entries :=
  let optional : Option Text → Value
    | some t => .text t
    | none => .null
  [("message_id", .text m.id),
    ("receipt_handle", .text m.receiptHandle),
    ("body", .text m.body),
    ("event_source_arn", .text m.source),
    ("attributes", .object (m.attributes.map fun e => (e.1, .text e.2))),
    ("message_attributes", .object (m.messageAttributes.map fun e => (e.1, .object e.2))),
    ("md5_of_body", optional m.bodyDigest),
    ("aws_region", optional m.region)]

end Message
end PartialBatch
