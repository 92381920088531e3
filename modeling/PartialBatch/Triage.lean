/-
# Triage of failures

A message that failed is left on its queue and delivered again, unless its error is of a
kind for which that is pointless. A kind is a class of errors, which counts for the classes
below it too, or a code, which is compared with the code that an error carries. The wording
of an error plays no part.

| error | verdict |
| --- | --- |
| of a listed class or of one below it | not retryable |
| else, with a listed code | not retryable |
| else, with a list or an object for a code | none: a `TypeError`, since these are not comparable |
| else | retryable |
-/

import PartialBatch.Error.Basic

namespace PartialBatch

/-- What is listed as not retryable; only a class of errors and a code can be used. -/
inductive Kind
  | errors (cls : ErrorClass)
  | code (tag : Text)
  /-- A class whose members are no errors. -/
  | type (name : String)
  /-- An error itself. -/
  | thrown (e : Error)
  | value (v : Value)
  deriving DecidableEq, Repr

namespace Kind

/-- A kind as messages show it, if it can be shown. -/
def shown : Kind → Except Error Text
  | errors cls => .ok ("<class \x27" ++ cls.fullName ++ "\x27>")
  | code tag => .ok tag.quoted
  | type name => .ok ("<class \x27" ++ name ++ "\x27>")
  | thrown e => e.shown
  | value v => Error.showing v

/-- The kind that a value is. -/
def ofValue : Value → Kind
  | .text t => code t
  | v => value v

end Kind

/-- What becomes of a failed message. -/
inductive Verdict
  | retryable
  | nonRetryable
  deriving DecidableEq, Repr

/-- The name of a verdict. -/
def Verdict.name : Verdict → Text
  | retryable => "retryable"
  | nonRetryable => "non_retryable"

/-- The classes and codes for which a failure is not retryable. -/
structure Triage where
  classes : List ErrorClass
  codes : List Text
  deriving DecidableEq, Repr

namespace Triage

/-- The triage for a list of kinds, or the refusal of its first unusable one. -/
def ofKinds : List Kind → Except Error Triage
  | [] => .ok ⟨[], []⟩
  | .errors cls :: rest => do
    let t ← ofKinds rest
    pure { t with classes := cls :: t.classes }
  | .code tag :: rest => do
    let t ← ofKinds rest
    pure { t with codes := tag :: t.codes }
  | kind :: _ => do
    let t ← kind.shown
    .error (.saying .typeError
      ("Non-retryable kind must be an exception class or an error code, got " ++ t))

/-- The verdict on an error. -/
def classify (t : Triage) (e : Error) : Except Error Verdict :=
  if t.classes.any e.isA then .ok .nonRetryable
  else match e.code? with
    | none => .ok .retryable
    | some .null => .ok .retryable
    | some (.text tag) => .ok (if tag ∈ t.codes then .nonRetryable else .retryable)
    | some code => if code.member?.isSome then .ok .retryable else .error (.unworded .typeError)

/-- Whether an error is not retryable. -/
def isNonRetryable (t : Triage) (e : Error) : Except Error Bool := do
  pure ((← t.classify e) = .nonRetryable)

end Triage
end PartialBatch
