/-
# Handlers

What a batch is handled with. A handler is given as an object or as a class of objects:

| handler | messages go to |
| --- | --- |
| class with a `process` method | that method of a new object, made for this batch |
| class without | nobody: a `TypeError` names the class |
| object with a `process` method | that method, also if the object can be called |
| object that can be called | the object |
| any other object | nobody: a `TypeError` shows the object |

An object may keep a state, and every call may change it, so a call with something that is
no message is a call too, though nothing comes of it.
-/

import PartialBatch.Run.Basic

namespace PartialBatch

/-- What handles single messages. -/
structure Callee where
  /-- Handles a message. -/
  handle : Message → Run Value
  /-- What is done when it is called with something that is no message. -/
  stray : Run Unit := .done ()

instance : CoeFun Callee fun _ => Message → Run Value := ⟨Callee.handle⟩

/-- The callee that hands messages to an object. -/
def Callee.ofObject (object : Nat) : Callee := ⟨Run.call object, Run.stray object⟩

/-- What a batch is handled with. -/
inductive Handler
  | object (process call : Option Callee) (shown : Except Error Text)
  | ofClass (name : Text) (hasProcess : Bool) (make : Run Callee)

namespace Handler

/-- The callee that a batch is handled with. -/
def resolve : Handler → Run Callee
  | ofClass name false _ =>
    .raise (.saying .typeError ("Handler class " ++ name ++ " has no process method"))
  | ofClass _ true make => make
  | object (some process) _ _ => .done process
  | object none (some call) _ => .done call
  | object none none shown => do
    let t ← shown
    .raise (.saying .typeError ("Unsupported message handler: " ++ t))

/-- The class of handlers with a number; each of its objects is called by its own number. -/
def numbered (name : Text) (handlerClass : Nat) : Handler :=
  ofClass name true do
    let object ← Run.construct handlerClass
    pure (.ofObject object)

end Handler

/-- What is called after a message was handled. A success hook that raises makes the message
a failure; what a failure hook raises is noted and dropped. -/
structure Hooks where
  succeeded : Option (Message → Value → Run Unit) := none
  failed : Option (Message → Error → Run Unit) := none

namespace Hooks

/-- The hook that asks the surroundings on every success. -/
def askSucceeded (m : Message) (v : Value) : Run Unit := .ask (.succeeded m v) .ofExcept

/-- The hook that asks the surroundings on every failure. -/
def askFailed (m : Message) (e : Error) : Run Unit := .ask (.failed m e) .ofExcept

end Hooks
end PartialBatch
