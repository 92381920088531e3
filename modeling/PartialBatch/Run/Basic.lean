/-
# Runs

A run is what the processing of a batch does, up to what its surroundings answer. It ends
in a value or in an error, or it asks a question and goes on with the answer. Handlers,
hooks and the queue service are surroundings: a run calls them by asking, and whatever they
do, including to keep a state of their own, is in their answers.

| question | answer |
| --- | --- |
| `construct c` | a new object of the handler class `c`, or an error |
| `call o m` | the value of the handler object `o` for the message `m`, or an error |
| `stray o` | none: the object `o` is called with something that is no message, and refuses |
| `succeeded m v`, `failed m e` | whether the hook raised |
| `client` | none: the queue client is made at the first time |
| `request r` | what the queue service answers, or an error |
| `log`, `bind`, `unbind` | none |
-/

import PartialBatch.Log.Line

namespace PartialBatch

/-- A request to the queue service. -/
inductive Request
  | delete (queueUrl entries : Value)
  | send (queueUrl entries : Value)
  | attributes (queueUrl : Value) (names : List Text)
  deriving DecidableEq, Repr

/-- A question of a run to its surroundings. -/
inductive Ask
  | construct (handlerClass : Nat)
  | call (object : Nat) (m : Message)
  | stray (object : Nat)
  | succeeded (m : Message) (v : Value)
  | failed (m : Message) (e : Error)
  | client
  | request (r : Request)
  | log (entry : Log.Entry)
  | bind (context : Entries)
  | unbind
  deriving Repr

/-- What can be answered to a question. -/
def Ask.Answer : Ask → Type
  | construct _ => Except Error Nat
  | call _ _ => Except Error Value
  | stray _ => Unit
  | succeeded _ _ => Except Error Unit
  | failed _ _ => Except Error Unit
  | client => Unit
  | request _ => Except Error Value
  | log _ => Unit
  | bind _ => Unit
  | unbind => Unit

/-- A question with the answer that was given to it. -/
structure Event where
  ask : Ask
  answer : ask.Answer

/-- A process that asks its surroundings and ends in a value or an error. -/
inductive Run (α : Type) : Type
  | done (a : α)
  | raise (e : Error)
  | ask (q : Ask) (next : q.Answer → Run α)

namespace Run

variable {α β : Type}

/-- One run, and with its value a second. -/
def bind : Run α → (α → Run β) → Run β
  | done a, f => f a
  | raise e, _ => raise e
  | ask q next, f => ask q fun x => bind (next x) f

instance : Monad Run where
  pure := done
  bind := bind

/-- The run that ends in a result at once. -/
def ofExcept : Except Error α → Run α
  | .ok a => done a
  | .error e => raise e

instance : MonadLift (Except Error) Run := ⟨ofExcept⟩

/-- The run that ends in whatever another ends in, as a value. -/
def attempt : Run α → Run (Except Error α)
  | done a => done (.ok a)
  | raise e => done (.error e)
  | ask q next => ask q fun x => attempt (next x)

/-- The run that asks one question. -/
def question (q : Ask) : Run q.Answer := ask q done

/-! ## Single questions -/

/-- Makes an object of a handler class. -/
def construct (handlerClass : Nat) : Run Nat := ask (.construct handlerClass) ofExcept

/-- Calls a handler object on a message. -/
def call (object : Nat) (m : Message) : Run Value := ask (.call object m) ofExcept

/-- Calls a handler object with something that is no message. -/
def stray (object : Nat) : Run Unit := ask (.stray object) done

/-- Sends a request through the queue client, which is made if there is none yet. -/
def request (r : Request) : Run Value := ask .client fun _ => ask (.request r) ofExcept

/-- Writes a log line. -/
def log (level : Log.Level) (event : Text) (fields : Entries) : Run Unit :=
  ask (.log (.ofValues level event fields)) done

/-! ## Running -/

/-- Surroundings with a state. -/
structure World (σ : Type) where
  answer : (q : Ask) → σ → q.Answer × σ

/-- What a run does in surroundings: its events, what it ends in, and the state after it. -/
def exec {σ : Type} (w : World σ) : Run α → σ → List Event × Except Error α × σ
  | done a, s => ([], .ok a, s)
  | raise e, s => ([], .error e, s)
  | ask q next, s =>
    let (x, s) := w.answer q s
    let (events, result, s) := exec w (next x) s
    (⟨q, x⟩ :: events, result, s)

end Run
end PartialBatch
