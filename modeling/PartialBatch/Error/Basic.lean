/-
# Errors

An error has a class and a way to be shown; some carry a code by which a consumer may
classify them.

| error | shown as | its text |
| --- | --- | --- |
| `ordinary` | class and arguments | the arguments, and the files it is about |
| `worded` | class and arguments | what its class makes of it |
| `unworded` | class | not settled |
| `coded` | class and message | `[code] message`, the bare message without a code |
| `report` | class and message | as for `coded` |

The message of a report has one line per failed message, the error as it is shown. Where
there is no text, asking for it is an error of its own, and so it is with showing:

| error | stands in the way of its text |
| --- | --- |
| `ordinary`, `coded` | an argument, or code or message, that cannot be shown |
| `worded` | whatever its class raises |
| `coded` without a code | a message that is no text |
-/

import PartialBatch.Error.Class
import PartialBatch.Message.Basic
import PartialBatch.Validation
import PartialBatch.Value.Shown

namespace PartialBatch

/-- What a coded error was raised for, where its message does not tell all of it. -/
inductive Cause
  /-- The message tells it. -/
  | told
  /-- A value of the wrong type was given where JSON was due. -/
  | type
  /-- Fields of a record were refused. -/
  | fields (faults : List FieldFault)
  deriving DecidableEq, Repr

/-- The parts of an error that carries a code. The notes are the facts that its class
records beside the details. -/
structure Coded where
  cls : ErrorClass
  message : Value
  code : Value
  details : Value
  notes : Entries
  cause : Cause
  deriving DecidableEq, Repr

/-- An error. -/
inductive Error
  /-- An error made from arguments. An operating system error may be about one file or two.
  Its code is absent unless one was put on it. -/
  | ordinary (cls : ErrorClass) (args files : List Value) (code : Option Value)
  /-- An error of a class that words its errors itself: with a text, or an error in its
  place. -/
  | worded (cls : ErrorClass) (args : List Value) (code : Option Value)
      (words : Except Error Text)
  /-- An error that evaluation itself runs into, such as going through a value that has no
  elements. Its wording is not settled. -/
  | unworded (cls : ErrorClass)
  /-- An error of the library, or of a class below. -/
  | coded (parts : Coded)
  /-- The report of a batch: the failed messages with their errors, and the values of the
  others. -/
  | report (failures : List (Message × Error)) (values : List Value) (code : Value)
  deriving Repr

namespace Error

instance : Inhabited Error := ⟨.unworded .root⟩

mutual

/-- Whether two errors are the same. -/
def same : Error → Error → Bool
  | ordinary c as xs a, ordinary d bs ys b => c = d && as = bs && xs = ys && a = b
  | worded c as a w, worded d bs b v => c = d && as = bs && a = b && sameWords w v
  | unworded c, unworded d => c = d
  | coded a, coded b => a = b
  | report fs vs a, report gs ws b => sameFailures fs gs && vs = ws && a = b
  | _, _ => false

/-- Whether two errors are worded in the same way. -/
def sameWords : Except Error Text → Except Error Text → Bool
  | .ok t, .ok u => t = u
  | .error e, .error f => same e f
  | _, _ => false

/-- Whether two lists of failures are the same. -/
def sameFailures : List (Message × Error) → List (Message × Error) → Bool
  | [], [] => true
  | (m, e) :: fs, (n, f) :: gs => m = n && same e f && sameFailures fs gs
  | _, _ => false

end

mutual

theorem same_iff : (e f : Error) → (same e f = true ↔ e = f)
  | ordinary .., f => by cases f <;> simp [same, and_assoc]
  | worded _ _ _ w, f => by cases f <;> simp [same, sameWords_iff w, and_assoc]
  | unworded _, f => by cases f <;> simp [same]
  | coded _, f => by cases f <;> simp [same]
  | report fs _ _, f => by cases f <;> simp [same, sameFailures_iff fs, and_assoc]

theorem sameWords_iff : (w v : Except Error Text) → (sameWords w v = true ↔ w = v)
  | .ok _, v => by cases v <;> simp [sameWords]
  | .error e, v => by cases v <;> simp [sameWords, same_iff e]

theorem sameFailures_iff :
    (fs gs : List (Message × Error)) → (sameFailures fs gs = true ↔ fs = gs)
  | [], gs => by cases gs <;> simp [sameFailures]
  | (m, e) :: fs, gs => by
    cases gs <;> simp [sameFailures, same_iff e, sameFailures_iff fs, Prod.ext_iff]

end

instance : DecidableEq Error := fun e f => decidable_of_iff _ (same_iff e f)

/-- The class of an error. -/
def cls : Error → ErrorClass
  | ordinary cls .. => cls
  | worded cls .. => cls
  | unworded cls => cls
  | coded parts => parts.cls
  | report .. => .batchProcessing

/-- Whether an error is of a class or of one below it. -/
def isA (e : Error) (c : ErrorClass) : Bool := e.cls.isA c

/-- Whether an error is one that a consumer answers for. -/
def isException (e : Error) : Bool := e.isA .exception

/-- The code that an error carries; null is a code. -/
def code? : Error → Option Value
  | ordinary _ _ _ code => code
  | worded _ _ code _ => code
  | unworded _ => none
  | coded parts => some parts.code
  | report _ _ code => some code

/-- An error with another code on it. -/
def withCode (code : Value) : Error → Error
  | ordinary cls args files _ => ordinary cls args files (some code)
  | worded cls args _ words => worded cls args (some code) words
  | unworded cls => ordinary cls [] [] (some code)
  | coded parts => coded { parts with code }
  | report failures values _ => report failures values code

/-- An error that tells one text. -/
def saying (cls : ErrorClass) (t : Text) : Error := ordinary cls [.text t] [] none

/-! ## Showing errors -/

/-- The error of showing what cannot be shown. -/
def ofShowFault : ShowFault → Error
  | .digits => saying .valueError ("Exceeds the limit (" ++ Text.ofNat Text.maxDigits ++
      " digits) for integer string conversion; use sys.set_int_max_str_digits() to increase " ++
      "the limit")
  | .depth => saying .recursionError
      "maximum recursion depth exceeded while getting the repr of an object"

/-- A value as messages show it, or the error of showing it. -/
def showing (v : Value) : Except Error Text := v.shown.mapError ofShowFault

/-- A value as a message of its own, or the error of showing it. -/
def telling (v : Value) : Except Error Text := v.plain.mapError ofShowFault

/-- Values as messages show them, with something between them. -/
def showingAll (separator : Text) (vs : List Value) : Except Error Text := do
  let ts ← vs.mapM showing
  pure (Text.join separator ts)

mutual

/-- An error as a message shows it, if it can. -/
def shown : Error → Except Error Text
  | ordinary cls args .. => do
    let t ← showingAll ", " args
    pure (cls.name ++ "(" ++ t ++ ")")
  | worded cls args .. => do
    let t ← showingAll ", " args
    pure (cls.name ++ "(" ++ t ++ ")")
  | unworded cls => .ok (cls.name ++ "()")
  | coded parts => do
    let t ← showing parts.message
    pure (parts.cls.name ++ "(" ++ t ++ ")")
  | report failures _ _ => do
    let ts ← shownAll failures
    pure (ErrorClass.batchProcessing.name ++ "(" ++ (Text.join "\n" ts).quoted ++ ")")

/-- The errors of failed messages, each as a message shows it. -/
def shownAll : List (Message × Error) → Except Error (List Text)
  | [] => .ok []
  | (_, e) :: rest => do
    let t ← shown e
    let ts ← shownAll rest
    pure (t :: ts)

end

/-- The message of a report: a line for each failure. -/
def lines (failures : List (Message × Error)) : Except Error Text := do
  let ts ← shownAll failures
  pure (Text.join "\n" ts)

/-- A message behind its code; without a code that counts as true, the message must be a
text and stands alone. -/
def tagged (code message : Value) : Except Error Text :=
  if code.truthy then do
    let tag ← telling code
    let t ← telling message
    pure ("[" ++ tag ++ "] " ++ t)
  else match message with
    | .text t => .ok t
    | _ => .error (unworded .typeError)

/-- The files that an error is about, behind its reason. -/
def filesText (files : List Value) : Except Error Text :=
  if files.isEmpty then .ok [] else do
    let t ← showingAll " -> " files
    pure (": " ++ t)

/-- The text of arguments: none, one in plain, or all in brackets. A missing key is shown.
An operating system error that has two to five arguments tells the first two, a number and
a reason, and the files it is about. -/
def argumentText (cls : ErrorClass) (args files : List Value) : Except Error Text :=
  match args with
  | [] => .ok []
  | [v] => if cls.isA .keyError then showing v else telling v
  | number :: reason :: rest =>
    if cls.isA .osError ∧ rest.length ≤ 3 then do
      let n ← telling number
      let t ← telling reason
      let about ← filesText files
      pure ("[Errno " ++ n ++ "] " ++ t ++ about)
    else do
      let t ← showingAll ", " args
      pure ("(" ++ t ++ ")")

/-- The text of an error, if it has one. An unworded error counts as one with an empty
text. -/
def text : Error → Except Error Text
  | ordinary cls args files _ => argumentText cls args files
  | worded _ _ _ words => words
  | unworded _ => .ok []
  | coded parts => tagged parts.code parts.message
  | report failures _ code => do
    let t ← lines failures
    tagged code (.text t)

/-- An error as the log tells it: the full name of its class and its text, if it is not
empty. -/
def told (e : Error) : Text :=
  let name : Text := e.cls.fullName
  match e.text with
  | .ok [] => name
  | .ok t => name ++ ": " ++ t
  | .error _ => name ++ ": <exception str() failed>"

end Error
end PartialBatch
