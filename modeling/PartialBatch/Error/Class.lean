/-
# Classes of errors

Every error belongs to a class. A class is declared somewhere under a name, and it stands
below one or more others; only the root stands below none. An error of a class is also an
error of every class above it. The consumer answers for the classes below `exception`; those
that stand directly below the root end a run wherever they are raised.

| two classes | are one |
| --- | --- |
| of one declaration, below the same classes | yes |
| of one name, declared in two places | no |
| of one name, declared twice in one place | no: declarations are numbered |

Any class may be declared below any others; the classes here are those that the library
raises or has to know, and the common ones above and beside them.
-/

namespace PartialBatch

/-- Where a class is declared, and under which name. -/
structure Declaration where
  /-- The module, and the class inside which it stands if there is one; nothing for the
  common classes. -/
  home : Option String
  name : String
  /-- Tells apart what one place declares under one name. -/
  number : Nat
  deriving DecidableEq, Repr

/-- A class of errors: the root, or a declaration below one class or more. -/
inductive ErrorClass
  | root
  | declared (declaration : Declaration) (base : ErrorClass) (others : List ErrorClass)
  deriving Repr, Inhabited

namespace ErrorClass

mutual

/-- Whether two classes are the same. -/
def same : ErrorClass → ErrorClass → Bool
  | root, root => true
  | declared x b bs, declared y c cs => x = y && same b c && sameAll bs cs
  | _, _ => false

/-- Whether two lists are of the same classes. -/
def sameAll : List ErrorClass → List ErrorClass → Bool
  | [], [] => true
  | b :: bs, c :: cs => same b c && sameAll bs cs
  | _, _ => false

end

mutual

theorem same_iff : (c d : ErrorClass) → (same c d = true ↔ c = d)
  | root, d => by cases d <;> simp [same]
  | declared _ b bs, d => by cases d <;> simp [same, same_iff b, sameAll_iff bs, and_assoc]

theorem sameAll_iff : (bs cs : List ErrorClass) → (sameAll bs cs = true ↔ bs = cs)
  | [], cs => by cases cs <;> simp [sameAll]
  | b :: bs, cs => by cases cs <;> simp [sameAll, same_iff b, sameAll_iff bs]

end

instance : DecidableEq ErrorClass := fun c d => decidable_of_iff _ (same_iff c d)

/-- A class below one other. -/
def child (parent : ErrorClass) (name : String) (home : Option String := none) : ErrorClass :=
  declared ⟨home, name, 0⟩ parent []

/-- The classes directly above a class. -/
def bases : ErrorClass → List ErrorClass
  | root => []
  | declared _ base others => base :: others

/-- The name of a class. -/
def name : ErrorClass → String
  | root => "BaseException"
  | declared declaration .. => declaration.name

/-- The name of a class behind the place where it is declared; a common class stands
alone. -/
def fullName : ErrorClass → String
  | root => root.name
  | declared declaration .. => match declaration.home with
    | some home => home ++ "." ++ declaration.name
    | none => declaration.name

mutual

/-- Whether an error of the first class is an error of the second. -/
def isA (c d : ErrorClass) : Bool :=
  decide (c = d) || match c with
    | root => false
    | declared _ base others => isA base d || anyIsA others d

/-- Whether an error of some class of a list is an error of another. -/
def anyIsA (cs : List ErrorClass) (d : ErrorClass) : Bool :=
  match cs with
  | [] => false
  | c :: rest => isA c d || anyIsA rest d

end

/-! ## Common classes -/

def exception : ErrorClass := root.child "Exception"
def keyboardInterrupt : ErrorClass := root.child "KeyboardInterrupt"
def systemExit : ErrorClass := root.child "SystemExit"

def valueError : ErrorClass := exception.child "ValueError"
def typeError : ErrorClass := exception.child "TypeError"
def attributeError : ErrorClass := exception.child "AttributeError"
def lookupError : ErrorClass := exception.child "LookupError"
def keyError : ErrorClass := lookupError.child "KeyError"
def indexError : ErrorClass := lookupError.child "IndexError"
def runtimeError : ErrorClass := exception.child "RuntimeError"
def notImplementedError : ErrorClass := runtimeError.child "NotImplementedError"
def recursionError : ErrorClass := runtimeError.child "RecursionError"
def arithmeticError : ErrorClass := exception.child "ArithmeticError"
def zeroDivisionError : ErrorClass := arithmeticError.child "ZeroDivisionError"
def overflowError : ErrorClass := arithmeticError.child "OverflowError"

def osError : ErrorClass := exception.child "OSError"
def blockingIOError : ErrorClass := osError.child "BlockingIOError"
def childProcessError : ErrorClass := osError.child "ChildProcessError"
def connectionError : ErrorClass := osError.child "ConnectionError"
def brokenPipeError : ErrorClass := connectionError.child "BrokenPipeError"
def connectionAbortedError : ErrorClass := connectionError.child "ConnectionAbortedError"
def connectionRefusedError : ErrorClass := connectionError.child "ConnectionRefusedError"
def connectionResetError : ErrorClass := connectionError.child "ConnectionResetError"
def fileExistsError : ErrorClass := osError.child "FileExistsError"
def fileNotFoundError : ErrorClass := osError.child "FileNotFoundError"
def interruptedError : ErrorClass := osError.child "InterruptedError"
def isADirectoryError : ErrorClass := osError.child "IsADirectoryError"
def notADirectoryError : ErrorClass := osError.child "NotADirectoryError"
def permissionError : ErrorClass := osError.child "PermissionError"
def processLookupError : ErrorClass := osError.child "ProcessLookupError"
def timeoutError : ErrorClass := osError.child "TimeoutError"

/-- What base64 decoding raises. -/
def decodingError : ErrorClass := valueError.child "Error" (some "binascii")

/-- What the queue client raises when the service refuses a request. -/
def clientError : ErrorClass := exception.child "ClientError" (some "botocore.exceptions")

/-! ## Classes of the library -/

/-- Errors that carry a code. -/
def coded : ErrorClass := exception.child "SqsBatchError" (some "sqs_batch.core.errors")

/-- A redrive policy that cannot be used. -/
def redrivePolicy : ErrorClass := coded.child "RedrivePolicyError" (some "sqs_batch.core.errors")

/-- An event record that is no message. -/
def invalidMessage : ErrorClass := coded.child "InvalidMessageError" (some "sqs_batch.core.errors")

/-- A message body that is no JSON object. -/
def malformedRecord : ErrorClass := coded.child "MalformedRecordError" (some "batch_consumer")

/-- The report of a batch with failed messages. -/
def batchProcessing : ErrorClass :=
  coded.child "BatchProcessingError" (some "sqs_batch.batch.report")

end ErrorClass
end PartialBatch
