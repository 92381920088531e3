/-
# Request entries of a message

What a message contributes to a request. Its delete entry holds its id and its receipt
handle; its send entry holds its id, its body unchanged, and its attributes if any remains.

A message attribute is converted from the form of events to the form of requests:

| it has | in the entry |
| --- | --- |
| no data type, or one that counts as false | the attribute is left out |
| a string value that is not null | data type and string value |
| else a binary value that is a text | data type and the bytes of its base64 text |
| else a binary value that is not null | data type and the value as it is |
| neither | the attribute is left out |

The data type is looked for under `dataType` and, if that counts as false, `DataType`.
-/

import PartialBatch.Base64
import PartialBatch.Error.Basic

namespace PartialBatch
namespace Message

/-- The entry of a delete request. -/
def deleteEntry (m : Message) : Value :=
  .object [("Id", .text m.id), ("ReceiptHandle", .text m.receiptHandle)]

/-- The bytes of a base64 text. -/
def binary (t : Text) : Except Error (List UInt8) :=
  match Base64.decode t with
  | .ok bytes => .ok bytes
  | .error .notAscii => .error (.saying .valueError Base64.Fault.notAscii.text)
  | .error f => .error (.saying .decodingError f.text)

/-- The data type of an attribute; null if it has none. -/
def dataType (given : Entries) : Value :=
  let first := (given.get? "dataType").getD .null
  if first.truthy then first else (given.get? "DataType").getD .null

/-- An attribute in the form of requests, unless it is left out. -/
def sendAttribute (given : Entries) : Except Error (Option Value) :=
  let type := dataType given
  let typed (key : Text) (v : Value) : Except Error (Option Value) :=
    .ok (some (.object [("DataType", type), (key, v)]))
  if !type.truthy then .ok none
  else match (given.get? "stringValue").getD .null, (given.get? "binaryValue").getD .null with
    | .null, .null => .ok none
    | .null, .text t => do typed "BinaryValue" (.bytes (← binary t))
    | .null, v => typed "BinaryValue" v
    | v, _ => typed "StringValue" v

/-- The attributes that remain in the form of requests, in their order. -/
def sendAttributes : List (Text × Entries) → Except Error Entries
  | [] => .ok []
  | (name, given) :: rest => do
    let converted ← sendAttribute given
    let others ← sendAttributes rest
    match converted with
    | none => pure others
    | some v => pure ((name, v) :: others)

/-- The entry of a send request. -/
def sendEntry (m : Message) : Except Error Value := do
  let attributes ← sendAttributes m.messageAttributes
  let base : Entries := [("Id", .text m.id), ("MessageBody", .text m.body)]
  let carried : Entries := [("MessageAttributes", .object attributes)]
  pure (.object (if attributes.isEmpty then base else base ++ carried))

/-- The entries of a send request for messages, in order. -/
def sendEntries (ms : List Message) : Except Error (List Value) := ms.mapM sendEntry

end Message
end PartialBatch
