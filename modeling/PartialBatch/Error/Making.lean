/-
# Making errors

Errors are made by calling their class with arguments, by place or by name. A call that
does not fit the parameters of the class makes a `TypeError` instead.

| class | parameters | beyond that |
| --- | --- | --- |
| ordinary | any, by place | see below for those of the operating system |
| service refusal | the answer and the operation | the text names code, operation and message |
| coded | those of the class, of which the message is required | its code; details |

A coded class records some of its parameters, beside the details and as notes.

An operating system error of two to five arguments has a number, a reason, a file, an
argument without use, and a second file. If the file is not null, number and reason are its
only arguments from then on. An `OSError` of a known number is of the class for it. The
class of operations that would block takes a count in place of the file.
-/

import PartialBatch.Error.Basic

namespace PartialBatch
namespace Error

/-- The parameters of a call: some by place or name, the message of them required, and some
by name only. -/
structure Parameters where
  placed : List Text
  required : List Text
  named : List Text
  deriving Repr

/-- The arguments of a call by the names of their parameters, if the call fits. -/
def Parameters.bind (ps : Parameters) (args : List Value) (named : Entries) :
    Except Error Entries :=
  let bound : Entries := ps.placed.zip args
  let all := bound ++ named
  if args.length ≤ ps.placed.length
      ∧ named.all (fun e => (bound.get? e.1).isNone && (ps.placed ++ ps.named).contains e.1)
      ∧ ps.required.all (fun p => (all.get? p).isSome) then .ok all
  else .error (unworded .typeError)

/-- A coded class: its code unless the caller gives it, the parameters that it records, and
whether it takes details. -/
structure CodedClass where
  cls : ErrorClass
  code : Option Text
  records : List Text
  takesDetails : Bool
  deriving Repr

namespace CodedClass

/-- Errors that carry a code which the caller gives. -/
def plain : CodedClass := ⟨.coded, none, [], true⟩

def redrivePolicy : CodedClass :=
  ⟨.redrivePolicy, some "REDRIVE_POLICY", ["queue_url", "raw_policy"], true⟩

def invalidMessage : CodedClass :=
  ⟨.invalidMessage, some "INVALID_MESSAGE", ["message_id", "field"], true⟩

def malformedRecord : CodedClass :=
  ⟨.malformedRecord, some "MALFORMED_RECORD", ["message_id"], true⟩

/-- The parameters of a coded class. -/
def parameters (c : CodedClass) : Parameters :=
  match c.code with
  | none => ⟨["message", "error_code", "details"], ["message"], []⟩
  | some _ => ⟨"message" :: c.records, ["message"], if c.takesDetails then ["details"] else []⟩

/-- The details of an error with what its class records written into them. Details that
count as false are none; recording into what is no object is an error. -/
def recorded (details : Value) (notes : Entries) : Except Error Value :=
  let details := if details.truthy then details else .object []
  if notes.isEmpty then .ok details
  else match details with
    | .object es => .ok (.object (Entries.putAll es notes))
    | _ => .error (unworded .attributeError)

/-- An error of a coded class, for a cause, with a value for each parameter. -/
def raised (c : CodedClass) (given : Entries) (cause : Cause) : Except Error Error := do
  let value (key : Text) : Value := (given.get? key).getD .null
  let notes : Entries := c.records.map fun key => (key, value key)
  let code : Value := match c.code with
    | some code => .text code
    | none => value "error_code"
  let details ← recorded (value "details") notes
  pure (coded ⟨c.cls, value "message", code, details, notes, cause⟩)

/-- An error made by calling a coded class. -/
def make (c : CodedClass) (args : List Value) (named : Entries) : Except Error Error := do
  c.raised (← c.parameters.bind args named) .told

end CodedClass

/-- The error that the library raises for a redrive policy. -/
def redrivePolicy (message : Text) (queueUrl raw : Value) (cause : Cause) : Error :=
  let notes : Entries := [("queue_url", queueUrl), ("raw_policy", raw)]
  coded ⟨.redrivePolicy, .text message, .text "REDRIVE_POLICY", .object notes, notes, cause⟩

/-- The error that the library raises for a record that is no message. -/
def invalidMessage (fault : FieldFault) (messageId : Value) : Error :=
  let notes : Entries := [("message_id", messageId), ("field", .text fault.dotted)]
  coded ⟨.invalidMessage, .text ("Invalid SQS record: " ++ fault.complaint.wording),
    .text "INVALID_MESSAGE", .object notes, notes, .fields [fault]⟩

/-- The error that the library raises for a message body. -/
def malformedRecord (message : Text) (messageId : Text) : Error :=
  let notes : Entries := [("message_id", .text messageId)]
  coded ⟨.malformedRecord, .text message, .text "MALFORMED_RECORD", .object notes, notes, .told⟩

/-! ## Ordinary errors -/

/-- The classes of operating system errors, by error number. -/
def classOfNumber : List (Int × ErrorClass) :=
  [(1, .permissionError), (2, .fileNotFoundError), (3, .processLookupError),
    (4, .interruptedError), (10, .childProcessError), (11, .blockingIOError),
    (13, .permissionError), (17, .fileExistsError), (20, .notADirectoryError),
    (21, .isADirectoryError), (32, .brokenPipeError), (103, .connectionAbortedError),
    (104, .connectionResetError), (108, .brokenPipeError), (110, .timeoutError),
    (111, .connectionRefusedError), (114, .blockingIOError), (115, .blockingIOError)]

/-- The class of an operating system error with a number, made by calling a class: the one
for the number, if the class is that of all operating system errors. -/
def classFor (cls : ErrorClass) (number : Value) : ErrorClass :=
  let known (n : Int) : ErrorClass := (classOfNumber.lookup n).getD cls
  if cls = .osError then
    match number with
    | .int n => known n
    | .bool b => known (if b then 1 else 0)
    | _ => cls
  else cls

/-- Whether the third argument of an error is a count and not a file. Only operations that
would block take a count, which must be an integer of 64 bits. -/
def isCount (cls : ErrorClass) (third : Value) : Except Error Bool :=
  if cls ≠ .blockingIOError then .ok false
  else match third with
    | .int n =>
      if -9223372036854775808 ≤ n ∧ n ≤ 9223372036854775807 then .ok true
      else .error (saying .valueError "cannot fit \x27int\x27 into an index-sized integer")
    | .bool _ => .ok true
    | .float _ => .error (unworded .typeError)
    | _ => .ok false

/-- An operating system error with a number and a reason. -/
def makeNumbered (cls : ErrorClass) (number reason : Value) (rest : List Value) :
    Except Error Error := do
  let cls := classFor cls number
  let whole := ordinary cls (number :: reason :: rest) [] none
  match rest with
  | [] => pure whole
  | .null :: _ => pure whole
  | file :: more =>
    if ← isCount cls file then pure whole
    else
      let second := match more with
        | [_, .null] => []
        | [_, other] => [other]
        | _ => []
      pure (ordinary cls [number, reason] (file :: second) none)

/-- The parameters that an ordinary class takes by name. -/
def namedParameters (cls : ErrorClass) : List Text :=
  if cls = .attributeError then ["name", "obj"] else []

/-- An error made by calling an ordinary class. -/
def make (cls : ErrorClass) (args : List Value) (named : Entries) : Except Error Error :=
  if !named.all fun e => (namedParameters cls).contains e.1 then .error (unworded .typeError)
  else match args with
    | number :: reason :: rest =>
      if cls.isA .osError ∧ rest.length ≤ 3 then makeNumbered cls number reason rest
      else .ok (ordinary cls args [] none)
    | _ => .ok (ordinary cls args [] none)

/-- The text of a refusal by the service: its code and message, `Unknown` where the answer
has none, and how often the request was tried if that is told. -/
def refusalText (answer : Entries) (operation : Value) : Except Error Text := do
  let object (v : Value) : Except Error Entries := match v with
    | .object es => .ok es
    | _ => .error (unworded .attributeError)
  let retries : Text ← match answer.get? "ResponseMetadata" with
    | none => pure []
    | some v =>
      let facts ← object v
      match facts.get? "MaxAttemptsReached", facts.get? "RetryAttempts" with
      | some reached, some n =>
        if reached.truthy then do
          let t ← telling n
          pure (" (reached max retries: " ++ t ++ ")")
        else pure []
      | _, _ => pure []
  let error ← object ((answer.get? "Error").getD (.object []))
  let part (key : Text) : Except Error Text := telling ((error.get? key).getD (.text "Unknown"))
  let code ← part "Code"
  let called ← telling operation
  let message ← part "Message"
  pure ("An error occurred (" ++ code ++ ") when calling the " ++ called ++ " operation" ++
    retries ++ ": " ++ message)

/-- An error made by calling the class of service refusals. An answer that is no object has
no parts, and what it holds is looked into before that shows. -/
def makeRefusal (args : List Value) (named : Entries) : Except Error Error := do
  let ps : Parameters :=
    ⟨["error_response", "operation_name"], ["error_response", "operation_name"], []⟩
  let given ← ps.bind args named
  let operation := (given.get? "operation_name").getD .null
  match given.get? "error_response" with
  | some (.object answer) => pure (saying .clientError (← refusalText answer operation))
  | some (.text t) =>
    .error (unworded (if t.holds "ResponseMetadata" then .typeError else .attributeError))
  | some (.list vs) =>
    .error (unworded (if Value.text "ResponseMetadata" ∈ vs then .typeError else .attributeError))
  | _ => .error (unworded .typeError)

end Error
end PartialBatch
