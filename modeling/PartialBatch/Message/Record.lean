/-
# Messages from event records

An event lists records under `Records`. A record is a message if its fields are in order:

| part | key | otherwise | required |
| --- | --- | --- | --- |
| `id` | `messageId` | `message_id` | yes |
| `receiptHandle` | `receiptHandle` | `receipt_handle` | yes |
| `body` | `body` | | no: empty |
| `source` | `eventSourceARN` | `event_source_arn` | yes |
| `attributes` | `attributes` | | no: none |
| `messageAttributes` | `messageAttributes` | `message_attributes` | no: none |
| `bodyDigest` | `md5OfBody` | `md5_of_body` | no, and may be null |
| `region` | `awsRegion` | `aws_region` | no, and may be null |

Other keys are ignored. A record that is refused is refused for its first fault.
-/

import PartialBatch.Error.Making

namespace PartialBatch
namespace Message

/-- The message whose fields are the given entries. -/
def ofEntries (es : Entries) : Checked Message :=
  let text := FieldReader.text
  let any := FieldReader.any
  Checked.pure Message.mk
    |>.seq (text.field "messageId" "message_id" none es)
    |>.seq (text.field "receiptHandle" "receipt_handle" none es)
    |>.seq (text.field "body" "body" (some []) es)
    |>.seq (text.field "eventSourceARN" "event_source_arn" none es)
    |>.seq (text.objectOf.field "attributes" "attributes" (some []) es)
    |>.seq (any.objectOf.objectOf.field "messageAttributes" "message_attributes" (some []) es)
    |>.seq (text.optional.field "md5OfBody" "md5_of_body" (some none) es)
    |>.seq (text.optional.field "awsRegion" "aws_region" (some none) es)

/-- The message that a record is. -/
def ofRecord (record : Value) : Except Error Message :=
  match record with
  | .object es =>
    match ofEntries es with
    | .ok m => .ok m
    | .error faults =>
      .error (.invalidMessage faults.first ((Entries.get? es "messageId").getD .null))
  | _ => .error (.invalidMessage ⟨[], .record "SqsMessage"⟩ .null)

/-- The records that an event lists; an event without `Records` lists none. -/
def records (event : Value) : Except Error Value :=
  match event with
  | .object es => .ok ((Entries.get? es "Records").getD (.list []))
  | _ => .error (.unworded .attributeError)

/-- The elements of a value, or the error of going through one that has none. -/
def goThrough (v : Value) : Except Error (List Value) :=
  match v.elements? with
  | some vs => .ok vs
  | none => .error (.unworded .typeError)

/-- The messages that records are, in order. -/
def ofRecords (vs : List Value) : Except Error (List Message) := vs.mapM ofRecord

/-- The messages of an event, in its order. -/
def ofEvent (event : Value) : Except Error (List Message) := do
  ofRecords (← goThrough (← records event))

end Message
end PartialBatch
