/-
# Handler objects

A handler object may keep a state, so it matters which object a message is handed to, and after
which others.  All that is seen of an object is what it is called on and what it answers: one with a
state of its own answers by the messages that it was called on so far, and starts with none
(`ByHistory`).

| handler | made in a batch | called in a batch |
| --- | --- | --- |
| class | one object, first of all | the new object, on each message in order |
| object | none | that object, on each message in order |

So two batches with the same messages, each with a new object, are handled alike (`Run.Alike`): they
ask the same as long as they are answered the same, but for the number of the object, and what the
objects answer is the same because both started anew.
-/

import PartialBatch.Proofs.Batch.Bookkeeping
import PartialBatch.Proofs.Batch.Questions

namespace PartialBatch

/-! ## Objects in a course -/

/-- Whether a question neither makes a handler object nor calls one. -/
def Ask.Apart : Ask → Prop
  | construct _ | call _ _ | stray _ => False
  | _ => True

/-- The classes of which an object is to be made in events. -/
def constructions (t : List Event) : List Nat :=
  t.filterMap fun e => match e.ask with
    | .construct c => some c
    | _ => none

/-- The messages that handler objects are called on in events, each behind its object. -/
def handed (t : List Event) : List (Nat × Message) :=
  t.filterMap fun e => match e.ask with
    | .call o m => some (o, m)
    | _ => none

/-- The messages that one object is called on. -/
def handedTo (o : Nat) (t : List Event) : List Message :=
  ((handed t).filter fun c => c.1 = o).map Prod.snd

variable {t u : List Event} {o o' : Nat} {m : Message}

@[simp] theorem constructions_append :
    constructions (t ++ u) = constructions t ++ constructions u := List.filterMap_append

@[simp] theorem handed_append : handed (t ++ u) = handed t ++ handed u := List.filterMap_append

@[simp] theorem handedTo_append : handedTo o (t ++ u) = handedTo o t ++ handedTo o u := by
  simp [handedTo]

theorem constructions_of_apart (h : ∀ e ∈ t, e.ask.Apart) : constructions t = [] := by
  refine List.filterMap_eq_nil_iff.2 fun e he => ?_
  have hapart := h e he
  cases hask : e.ask with
  | construct c => rw [hask] at hapart; exact hapart.elim
  | _ => rfl

theorem handed_of_apart (h : ∀ e ∈ t, e.ask.Apart) : handed t = [] := by
  refine List.filterMap_eq_nil_iff.2 fun e he => ?_
  have hapart := h e he
  cases hask : e.ask with
  | call o m => rw [hask] at hapart; exact hapart.elim
  | _ => rfl

theorem handedTo_of_apart (h : ∀ e ∈ t, e.ask.Apart) : handedTo o t = [] := by
  rw [handedTo, handed_of_apart h]
  rfl

theorem Ask.IsOwn.apart {lines : List (Text × Log.Level)} (q : Ask) (h : q.IsOwn lines) : q.Apart := by
  cases q with
  | client | request | log => trivial
  | _ => exact h.elim

/-- A call of an object is one event, with what it ends in. -/
theorem Run.ends_call {x : Except Error Value} :
    (Run.call o m).Ends t x ↔ t = [⟨.call o m, x⟩] := by
  constructor
  · rintro ⟨answer, rest, rfl, h⟩
    obtain ⟨rfl, rfl⟩ := Run.ends_ofExcept.1 h
    rfl
  · rintro rfl
    exact ⟨x, [], rfl, Run.ends_ofExcept.2 ⟨rfl, rfl⟩⟩

/-! ## The object of a batch -/

namespace Batch

variable {hooks : Hooks} {s : Passage}

/-- The turn of a hook that leaves handler objects alone does so. -/
theorem Called.apart {α : Type} {hook : Option (α → Run Unit)} {x : Option α}
    {turn : Option (Turn Unit)} (h : Called hook x turn)
    (hapart : ∀ f ∈ hook, ∀ a, (f a).AsksIn Ask.Apart) :
    ∀ e ∈ (turn.map Turn.events).getD [], e.ask.Apart := by
  cases h with
  | absent | idle => exact List.forall_mem_nil _
  | called h => exact (hapart _ rfl _).of_ends h

/-- What follows the turn of the handler is apart from handler objects if the hooks are. -/
theorem Passage.Of.exists_rest {callee : Callee} (h : s.Of callee hooks)
    (hapart : hooks.AskIn Ask.Apart) :
    ∃ rest, s.events = s.handled.events ++ rest ∧ ∀ e ∈ rest, e.ask.Apart := by
  have hsucceeded : ∀ e ∈ (s.succeeded.map Turn.events).getD [], e.ask.Apart :=
    h.succeeded.apart fun f hf => by
      obtain ⟨hook, hhook, rfl⟩ := Option.map_eq_some_iff.1 hf
      exact hapart.succeeded hook hhook _
  have hfailed : ∀ e ∈ (s.failed.map Turn.events).getD [], e.ask.Apart :=
    h.failed.apart fun f hf => by
      obtain ⟨hook, hhook, rfl⟩ := Option.map_eq_some_iff.1 hf
      exact hapart.failed hook hhook _
  have haftermath : ∀ e ∈ s.aftermath, e.ask.Apart := by
    refine List.forall_mem_append.2 ⟨hfailed, ?_⟩
    split
    · exact List.forall_mem_singleton.2 trivial
    · exact List.forall_mem_nil _
  refine ⟨_, List.append_assoc .., List.forall_mem_append.2 ⟨hsucceeded, ?_⟩⟩
  split
  · exact List.forall_mem_nil _
  · split
    · exact List.forall_mem_cons.2 ⟨trivial, haftermath⟩
    · exact List.forall_mem_nil _

end Batch

namespace Processor

variable {p : Processor} {ms : List Message} {ss : List Batch.Passage} {rest : List Event}
  {x : Except Error (List Value)}

/-- Whether a batch goes so with an object: the passages are those of the first messages, in order,
and each starts with one call of the object, on its message; they are those of all messages, unless
the last of them ends the batch; what comes after them is apart from handler objects. -/
structure Handing (p : Processor) (o : Nat) (ms : List Message) (ss : List Batch.Passage)
    (rest : List Event) (x : Except Error (List Value)) : Prop where
  shown : ∀ s ∈ ss, s.Of (.ofObject o) p.hooks
  called : ∀ s ∈ ss, s.handled.events = [⟨.call o s.message, s.handled.result⟩]
  order : ss.map Batch.Passage.message <+: ms
  complete : ss.map Batch.Passage.message = ms ∨ rest = [] ∧ ∃ e, x = .error e
  apart : ∀ e ∈ rest, e.ask.Apart

/-- Whether events call no handler object but one, and that on the first messages of a batch in
order, on all of them unless the batch ends in an error; and make none. -/
structure CallsOnly (o : Nat) (ms : List Message) (t : List Event)
    (x : Except Error (List Value)) : Prop where
  made : constructions t = []
  calls : handed t = (handedTo o t).map (o, ·)
  order : handedTo o t <+: ms
  complete : handedTo o t = ms ∨ ∃ e, x = .error e

/-- Whether a batch can go so with an object, from where the object is there.  What the hooks do is
up to them. -/
structure Serves (p : Processor) (o : Nat) (ms : List Message) (t : List Event)
    (x : Except Error (List Value)) : Prop where
  handing : ∃ ss rest, t = ss.flatMap Batch.Passage.events ++ rest ∧ p.Handing o ms ss rest x
  alone : p.hooks.AskIn Ask.Apart → CallsOnly o ms t x

/-- With hooks that are apart, no other handler object is called, and none is made. -/
theorem Handing.callsOnly (h : p.Handing o ms ss rest x) (hapart : p.hooks.AskIn Ask.Apart) :
    CallsOnly o ms (ss.flatMap Batch.Passage.events ++ rest) x := by
  have hpassage (s : Batch.Passage) (hs : s ∈ ss) :
      handed s.events = [(o, s.message)] ∧ constructions s.events = [] := by
    obtain ⟨after, hevents, hafter⟩ := (h.shown s hs).exists_rest hapart
    rw [hevents, h.called s hs, handed_append, constructions_append, handed_of_apart hafter,
      constructions_of_apart hafter]
    exact ⟨rfl, rfl⟩
  have hhanded : handed (ss.flatMap Batch.Passage.events ++ rest) =
      (ss.map Batch.Passage.message).map (o, ·) := by
    rw [handed_append, handed_of_apart h.apart, List.append_nil, handed, List.filterMap_flatMap,
      List.map_map, ← List.flatMap_pure_eq_map]
    exact List.flatMap_congr fun s hs => (hpassage s hs).1
  have hmessages : handedTo o (ss.flatMap Batch.Passage.events ++ rest) =
      ss.map Batch.Passage.message := by
    rw [handedTo, hhanded]
    simp [List.filter_map, Function.comp_def]
  refine ⟨?_, by rw [hhanded, hmessages], hmessages ▸ h.order, ?_⟩
  · rw [constructions_append, constructions_of_apart h.apart, List.append_nil, constructions,
      List.filterMap_flatMap]
    exact List.flatMap_eq_nil_iff.2 fun s hs => (hpassage s hs).2
  · rw [hmessages]
    exact h.complete.imp id And.right

/-- **Once there is an object, the messages are handed to it** in order, and nothing else is. -/
theorem serves_of_ends (h : (Batch.handleAll (.ofObject o) p.hooks ms >>= p.conclude).Ends t x) :
    p.Serves o ms t x := by
  have hserves {ss : List Batch.Passage} {rest : List Event} (h : p.Handing o ms ss rest x) :
      p.Serves o ms (ss.flatMap Batch.Passage.events ++ rest) x :=
    ⟨⟨ss, rest, rfl, h⟩, h.callsOnly⟩
  have hpassages {y : Except Error (List (Message × Outcome))} {t : List Event}
      (h : (Batch.handleAll (.ofObject o) p.hooks ms).Ends t y) :
      ∃ ss, Batch.Passages (.ofObject o) p.hooks ms ss y ∧ t = ss.flatMap Batch.Passage.events ∧
        ∀ s ∈ ss, s.handled.events = [⟨.call o s.message, s.handled.result⟩] := by
    obtain ⟨ss, hss, rfl⟩ := Batch.passages_of_handleAll h
    exact ⟨ss, hss, rfl, fun s hs => Run.ends_call.1 (hss.of_mem hs).handled⟩
  obtain ⟨e, he, rfl⟩ | ⟨t₁, outcomes, t₂, h₁, h₂, rfl⟩ := Run.ends_bind.1 h
  · obtain ⟨ss, hss, rfl, hcalled⟩ := hpassages he
    rw [← List.append_nil (ss.flatMap _)]
    exact hserves ⟨fun s hs => hss.of_mem hs, hcalled, hss.messages_prefix, .inr ⟨rfl, e, rfl⟩,
      List.forall_mem_nil _⟩
  · obtain ⟨ss, hss, rfl, hcalled⟩ := hpassages h₁
    have hapart : ∀ e ∈ t₂, e.ask.Apart :=
      ((p.asksIn_conclude outcomes).mono Ask.IsOwn.apart).of_ends h₂
    exact hserves ⟨fun s hs => hss.of_mem hs, hcalled, hss.messages_prefix,
      .inl hss.messages_eq.1, hapart⟩

end Processor

/-! ## Runs with one object and with another -/

namespace Run

variable {α β : Type}

/-- Whether two runs are the same but for the object that they call. -/
inductive Alike (o o' : Nat) {α : Type} : Run α → Run α → Prop
  | done {a : α} : Alike o o' (.done a) (.done a)
  | raise {e : Error} : Alike o o' (.raise e) (.raise e)
  | apart {q : Ask} {next next' : q.Answer → Run α} (hq : q.Apart)
      (h : ∀ y, Alike o o' (next y) (next' y)) : Alike o o' (.ask q next) (.ask q next')
  | call {m : Message} {next next' : Except Error Value → Run α}
      (h : ∀ y, Alike o o' (next y) (next' y)) :
      Alike o o' (.ask (.call o m) next) (.ask (.call o' m) next')

namespace Alike

variable {r r' : Run α}

theorem refl (h : r.AsksIn Ask.Apart) : Alike o o' r r := by
  induction r with
  | done a => exact .done
  | raise e => exact .raise
  | ask q next ih => exact .apart h.1 fun y => ih y (h.2 y)

theorem bind {f f' : α → Run β} (h : Alike o o' r r') (hf : ∀ a, Alike o o' (f a) (f' a)) :
    Alike o o' (r >>= f) (r' >>= f') := by
  change Alike o o' (Run.bind r f) (Run.bind r' f')
  induction h with
  | @done a => exact hf a
  | raise => exact .raise
  | apart hq _ ih => exact .apart hq ih
  | call _ ih => exact .call ih

theorem attempt (h : Alike o o' r r') : Alike o o' r.attempt r'.attempt := by
  induction h with
  | done | raise => exact .done
  | apart hq _ ih => exact .apart hq ih
  | call _ ih => exact .call ih

end Alike
end Run

namespace Batch

open Run (Alike)

variable {hooks : Hooks}

theorem alike_guarded {α : Type} {r r' : Run α} (h : Alike o o' r r') :
    Alike o o' (guarded r) (guarded r') := by
  refine h.attempt.bind fun y => .refl ?_
  cases y with
  | ok a => exact .pure
  | error e => exact .ite .pure .raise

theorem alike_produce (o o' : Nat) (hapart : hooks.AskIn Ask.Apart) (m : Message) :
    Alike o o' (produce (.ofObject o) hooks m) (produce (.ofObject o') hooks m) := by
  refine .bind (.call fun y => .refl .ofExcept) fun v => .refl ?_
  cases hhook : hooks.succeeded with
  | none => exact .pure
  | some hook => exact (hapart.succeeded hook hhook m v).bind fun _ => .pure

/-- **Messages are handled alike with one object and with another.** -/
theorem alike_handleAll (o o' : Nat) (hapart : hooks.AskIn Ask.Apart) (ms : List Message) :
    Alike o o' (handleAll (.ofObject o) hooks ms) (handleAll (.ofObject o') hooks ms) := by
  induction ms with
  | nil => exact .done
  | cons m ms ih =>
    have hproduce := alike_guarded (alike_produce o o' hapart m)
    have hhandle := hproduce.bind fun y => .refl (asksIn_outcome Ask.IsOwn.apart hapart m y)
    exact hhandle.bind fun _ => ih.bind fun _ => .done

end Batch

/-! ## Answers -/

/-- Whether an event after others is one of objects that keep a state of their own: an object that
is made was not called before, and what an object answers depends only on the messages that it was
called on so far. -/
def Event.IsByHistory (answer : List Message → Except Error Value) (before : List Event) :
    Event → Prop
  | ⟨.construct _, .ok o⟩ => handedTo o before = []
  | ⟨.call o m, y⟩ => y = answer (handedTo o before ++ [m])
  | _ => True

/-- Whether handler objects keep a state of their own in events that follow others. -/
def ByHistory (answer : List Message → Except Error Value) (before : List Event) :
    List Event → Prop
  | [] => True
  | e :: rest => e.IsByHistory answer before ∧ ByHistory answer (before ++ [e]) rest

/-- An event without the numbers of handler objects. -/
def Event.unnumbered : Event → Event
  | ⟨.construct c, y⟩ => ⟨.construct c, Except.map (fun _ => 0) y⟩
  | ⟨.call _ m, y⟩ => ⟨.call 0 m, y⟩
  | e => e

/-- Whether a question is one to a handler object. -/
def Ask.IsCall : Ask → Prop
  | call _ _ => True
  | _ => False

theorem Event.answer_inj {q : Ask} {y z : q.Answer} (h : (⟨q, y⟩ : Event) = ⟨q, z⟩) : y = z :=
  eq_of_heq (Event.mk.inj h).2

theorem Ask.Apart.unnumbered {q : Ask} (h : q.Apart) (y : q.Answer) :
    Event.unnumbered ⟨q, y⟩ = ⟨q, y⟩ := by
  cases q with
  | construct | call => exact h.elim
  | _ => rfl

theorem Ask.Apart.not_isCall {q : Ask} (h : q.Apart) : ¬q.IsCall := by
  cases q with
  | call => exact h.elim
  | _ => exact id

/-- Whether two courses have the same answers, handler objects apart: what is asked in both after
the same events has the same answer, up to the numbers of objects. -/
def SameAnswers : List Event → List Event → Prop
  | e :: t, e' :: u =>
    (e.ask = e'.ask → ¬e.ask.IsCall → e.unnumbered = e'.unnumbered) ∧
      (e.unnumbered = e'.unnumbered → SameAnswers t u)
  | _, _ => True

variable {answer : List Message → Except Error Value} {before before' : List Event}

theorem byHistory_append : ByHistory answer before (t ++ u) ↔
    ByHistory answer before t ∧ ByHistory answer (before ++ t) u := by
  induction t generalizing before with
  | nil => simp [ByHistory]
  | cons e t ih =>
    rw [List.cons_append, ByHistory, ByHistory, ih, and_assoc, List.append_assoc,
      List.singleton_append]

theorem SameAnswers.of_append {t' u' : List Event} (h : SameAnswers (t ++ t') (u ++ u')) :
    SameAnswers t u := by
  induction t generalizing u with
  | nil => trivial
  | cons e t ih =>
    cases u with
    | nil => trivial
    | cons e' u => exact ⟨h.1, fun hsame => ih (h.2 hsame)⟩

/-- Courses that are the same have the same answers. -/
theorem sameAnswers_of_eq (h : t.map Event.unnumbered = u.map Event.unnumbered) :
    SameAnswers t u := by
  induction t generalizing u with
  | nil => trivial
  | cons e t ih =>
    cases u with
    | nil => trivial
    | cons e' u =>
      obtain ⟨hevent, hrest⟩ := List.cons.inj h
      exact ⟨fun _ _ => hevent, fun _ => ih hrest⟩

/-- **Runs that are alike do the same**, if they are answered the same and their objects were called
on the same messages before. -/
theorem Run.Alike.same {α : Type} {r r' : Run α} {x y : Except Error α} (h : Run.Alike o o' r r')
    (ht : r.Ends t x) (hu : r'.Ends u y) (hanswer : ByHistory answer before t)
    (hanswer' : ByHistory answer before' u) (hhanded : handedTo o before = handedTo o' before')
    (hsame : SameAnswers t u) : x = y ∧ t.map Event.unnumbered = u.map Event.unnumbered := by
  induction h generalizing before before' t u with
  | done =>
    obtain ⟨rfl, rfl⟩ := ht
    obtain ⟨rfl, rfl⟩ := hu
    exact ⟨rfl, rfl⟩
  | raise =>
    obtain ⟨rfl, rfl⟩ := ht
    obtain ⟨rfl, rfl⟩ := hu
    exact ⟨rfl, rfl⟩
  | @apart q next next' hq _ ih =>
    obtain ⟨a, t, rfl, ht⟩ := ht
    obtain ⟨b, u, rfl, hu⟩ := hu
    have hevent := hsame.1 rfl hq.not_isCall
    obtain rfl : a = b := Event.answer_inj (by rwa [hq.unnumbered, hq.unnumbered] at hevent)
    have hnone (k : Nat) : handedTo k [⟨q, a⟩] = [] :=
      handedTo_of_apart (List.forall_mem_singleton.2 hq)
    have hhanded' : handedTo o (before ++ [⟨q, a⟩]) = handedTo o' (before' ++ [⟨q, a⟩]) := by
      rw [handedTo_append, handedTo_append, hnone, hnone, hhanded]
    obtain ⟨rfl, hrest⟩ := ih a ht hu hanswer.2 hanswer'.2 hhanded' (hsame.2 rfl)
    exact ⟨rfl, by rw [List.map_cons, List.map_cons, hrest]⟩
  | @call m next next' _ ih =>
    obtain ⟨a, t, rfl, ht⟩ := ht
    obtain ⟨b, u, rfl, hu⟩ := hu
    obtain rfl : a = b := by rw [hanswer.1, hanswer'.1, hhanded]
    have hone (k : Nat) : handedTo k [⟨.call k m, a⟩] = [m] := by simp [handedTo, handed]
    have hhanded' : handedTo o (before ++ [⟨.call o m, a⟩]) =
        handedTo o' (before' ++ [⟨.call o' m, a⟩]) := by
      rw [handedTo_append, handedTo_append, hone, hone, hhanded]
    obtain ⟨rfl, hrest⟩ := ih a ht hu hanswer.2 hanswer'.2 hhanded' (hsame.2 rfl)
    refine ⟨rfl, ?_⟩
    rw [List.map_cons, List.map_cons, hrest]
    rfl

/-- A new object, and a run with it: either there is no object, or the run follows. -/
theorem Run.ends_construct_bind {α : Type} {c : Nat} {r : Nat → Run α} {x : Except Error α} :
    (Run.construct c >>= r).Ends t x ↔
      (∃ e, t = [⟨.construct c, .error e⟩] ∧ x = .error e) ∨
        ∃ o u, t = ⟨.construct c, .ok o⟩ :: u ∧ (r o).Ends u x := by
  constructor
  · rintro ⟨y, rest, rfl, h⟩
    cases y with
    | error e =>
      obtain ⟨rfl, rfl⟩ := h
      exact .inl ⟨e, rfl, rfl⟩
    | ok o => exact .inr ⟨o, rest, rfl, h⟩
  · rintro (⟨e, rfl, rfl⟩ | ⟨o, u, rfl, h⟩)
    · exact ⟨.error e, [], rfl, rfl, rfl⟩
    · exact ⟨.ok o, u, rfl, h⟩

/-- **With a new object a run does the same as with another new one**, if they are answered the
same. -/
theorem Run.Alike.same_of_construct {α : Type} {c : Nat} {r : Nat → Run α} {x y : Except Error α}
    (h : ∀ o o', Run.Alike o o' (r o) (r o')) (ht : (Run.construct c >>= r).Ends t x)
    (hu : (Run.construct c >>= r).Ends u y) (hanswer : ByHistory answer before t)
    (hanswer' : ByHistory answer before' u) (hsame : SameAnswers t u) :
    x = y ∧ t.map Event.unnumbered = u.map Event.unnumbered := by
  have hnew {o : Nat} {before : List Event} (hbefore : handedTo o before = []) :
      handedTo o (before ++ [⟨.construct c, .ok o⟩]) = [] := by
    rw [handedTo_append, hbefore]
    rfl
  obtain ⟨e, rfl, rfl⟩ | ⟨o, t, rfl, hr⟩ := Run.ends_construct_bind.1 ht <;>
    obtain ⟨e', rfl, rfl⟩ | ⟨o', u, rfl, hr'⟩ := Run.ends_construct_bind.1 hu
  · obtain rfl : e = e' := Except.error.inj (Event.answer_inj (hsame.1 rfl id))
    exact ⟨rfl, rfl⟩
  · have hmade : (Except.error e : Except Error Nat) = .ok 0 := Event.answer_inj (hsame.1 rfl id)
    cases hmade
  · have hmade : (Except.ok 0 : Except Error Nat) = .error e' := Event.answer_inj (hsame.1 rfl id)
    cases hmade
  · obtain ⟨rfl, hrest⟩ := (h o o').same hr hr' hanswer.2 hanswer'.2
      ((hnew hanswer.1).trans (hnew hanswer'.1).symm) (hsame.2 rfl)
    refine ⟨rfl, ?_⟩
    rw [List.map_cons, List.map_cons, hrest]
    rfl

/-! ## Batches one after another -/

/-- Whether a handler is an object with a number: one with a `process` method, or a function. -/
inductive Handler.IsObject (o : Nat) : Handler → Prop
  | method {call : Option Callee} {shown : Except Error Text} :
      IsObject o (.object (some (.ofObject o)) call shown)
  | function {shown : Except Error Text} : IsObject o (.object none (some (.ofObject o)) shown)

namespace Processor

variable {p : Processor} {name : Text} {c : Nat} {ms : List Message}
  {x : Except Error (List Value)}

theorem handling_numbered (p : Processor) (ms : List Message) (name : Text) (c : Nat) :
    p.handling ms (.numbered name c) =
      Run.construct c >>= fun o => Batch.handleAll (.ofObject o) p.hooks ms := Run.bind_assoc ..

theorem process_numbered (p : Processor) (ms : List Message) (name : Text) (c : Nat) :
    p.process ms (.numbered name c) =
      Run.construct c >>= fun o => Batch.handleAll (.ofObject o) p.hooks ms >>= p.conclude := by
  rw [process_eq, handling_numbered]
  exact Run.bind_assoc ..

/-- The outcomes in a course of a batch, as far as all messages have one. -/
def Results (p : Processor) (ms : List Message) (handler : Handler) (turn : Turn (List Value))
    (outcomes : List (Message × Outcome)) : Prop :=
  ∃ handled rest, turn.events = handled ++ rest ∧
    p.Stages ms handler handled outcomes rest turn.result

/-- The outcomes of a batch are what its handling ends in. -/
theorem Stages.exists_handling {handler : Handler} {handled rest : List Event}
    {outcomes : List (Message × Outcome)} (h : p.Stages ms handler handled outcomes rest x) :
    ∃ y, (p.handling ms handler).Ends handled y ∧ outcomes = y.toOption.getD [] := by
  cases h with
  | aborted h => exact ⟨_, h, rfl⟩
  | concluded h => exact ⟨_, h, rfl⟩

/-- **Two batches of the same messages, each with a new object, go the same way.** -/
theorem same_of_numbered {turn turn' : Turn (List Value)} (hapart : p.hooks.AskIn Ask.Apart)
    (ht : (p.process ms (.numbered name c)).Ends turn.events turn.result)
    (hu : (p.process ms (.numbered name c)).Ends turn'.events turn'.result)
    (hanswer : ByHistory answer before turn.events)
    (hanswer' : ByHistory answer before' turn'.events)
    (hsame : SameAnswers turn.events turn'.events) :
    turn.result = turn'.result ∧
      turn.events.map Event.unnumbered = turn'.events.map Event.unnumbered ∧
      ∃ outcomes, p.Results ms (.numbered name c) turn outcomes ∧
        p.Results ms (.numbered name c) turn' outcomes := by
  have hhandling (o o' : Nat) := Batch.alike_handleAll o o' hapart ms
  have hconclude (outcomes : List (Message × Outcome)) : (p.conclude outcomes).AsksIn Ask.Apart :=
    (p.asksIn_conclude outcomes).mono Ask.IsOwn.apart
  obtain ⟨handled, outcomes, rest, hevents, hstages⟩ := ends_process.1 ht
  obtain ⟨handled', outcomes', rest', hevents', hstages'⟩ := ends_process.1 hu
  have houtcomes {y y' : Except Error (List (Message × Outcome))}
      (h : (p.handling ms (.numbered name c)).Ends handled y)
      (h' : (p.handling ms (.numbered name c)).Ends handled' y') : y = y' := by
    rw [handling_numbered] at h h'
    rw [hevents] at hanswer hsame
    rw [hevents'] at hanswer' hsame
    exact (Run.Alike.same_of_construct hhandling h h' (byHistory_append.1 hanswer).1
      (byHistory_append.1 hanswer').1 hsame.of_append).1
  rw [process_numbered] at ht hu
  have hprocess (o o' : Nat) := (hhandling o o').bind fun outcomes => .refl (hconclude outcomes)
  obtain ⟨hresult, hunnumbered⟩ :=
    Run.Alike.same_of_construct hprocess ht hu hanswer hanswer' hsame
  obtain ⟨z, hz, rfl⟩ := hstages.exists_handling
  obtain ⟨z', hz', rfl⟩ := hstages'.exists_handling
  obtain rfl := houtcomes hz hz'
  exact ⟨hresult, hunnumbered, _, ⟨handled, rest, hevents, hstages⟩, handled', rest', hevents',
    hstages'⟩

/-- Whether batches can go so, processed one after another with the same handler. -/
def Courses (p : Processor) (handler : Handler) (batches : List (List Message))
    (turns : List (Turn (List Value))) : Prop :=
  List.Forall₂ (fun ms turn => (p.process ms handler).Ends turn.events turn.result) batches turns

/-- What a processor does with batches in surroundings, one after another. -/
def turnsIn {σ : Type} (p : Processor) (handler : Handler) (w : Run.World σ) :
    List (List Message) → σ → List (Turn (List Value))
  | [], _ => []
  | ms :: rest, state =>
    let course := (p.process ms handler).exec w state
    ⟨course.1, course.2.1⟩ :: turnsIn p handler w rest course.2.2

theorem courses_turnsIn {σ : Type} (p : Processor) (handler : Handler) (w : Run.World σ)
    (batches : List (List Message)) (state : σ) :
    p.Courses handler batches (p.turnsIn handler w batches state) := by
  induction batches generalizing state with
  | nil => exact .nil
  | cons ms rest ih => exact .cons (Run.ends_exec w _ state) (ih _)

/-- Whether a batch can go so with a new object: none could be made, which ends the batch, or it is
made first and serves the batch. -/
def Instantiates (p : Processor) (c : Nat) (ms : List Message) (turn : Turn (List Value)) : Prop :=
  (∃ e, turn = ⟨[⟨.construct c, .error e⟩], .error e⟩) ∨
    ∃ o t, turn.events = ⟨.construct c, .ok o⟩ :: t ∧ p.Serves o ms t turn.result

theorem instantiates_of_ends {turn : Turn (List Value)}
    (h : (p.process ms (.numbered name c)).Ends turn.events turn.result) :
    p.Instantiates c ms turn := by
  rw [process_numbered] at h
  obtain ⟨e, hevents, hresult⟩ | ⟨o, t, hevents, ht⟩ := Run.ends_construct_bind.1 h
  · cases turn
    obtain rfl := hevents
    obtain rfl := hresult
    exact .inl ⟨e, rfl⟩
  · exact .inr ⟨o, t, hevents, serves_of_ends ht⟩

variable {handler : Handler} {batches : List (List Message)} {turns : List (Turn (List Value))}

/-- With an object for a handler nothing is made, and every batch is served by that object. -/
theorem serves_of_isObject {turn : Turn (List Value)} (hobject : handler.IsObject o)
    (h : (p.process ms handler).Ends turn.events turn.result) :
    p.Serves o ms turn.events turn.result := by
  cases hobject with
  | method | function => exact serves_of_ends h

/-- All batches that an object serves are one sequence of calls of it. -/
theorem calls_of_serves
    (h : List.Forall₂ (fun ms turn => p.Serves o ms turn.events turn.result) batches turns)
    (hapart : p.hooks.AskIn Ask.Apart) :
    constructions (turns.flatMap Turn.events) = [] ∧ handed (turns.flatMap Turn.events) =
      (turns.flatMap fun turn => handedTo o turn.events).map (o, ·) := by
  induction h with
  | nil => exact ⟨rfl, rfl⟩
  | cons hserves _ ih =>
    have honly := hserves.alone hapart
    simp only [List.flatMap_cons, constructions_append, handed_append, List.map_append]
    exact ⟨by rw [honly.made, ih.1, List.append_nil], by rw [honly.calls, ih.2]⟩

/-- In every batch there is one attempt to make an object. -/
theorem constructions_of_instantiates (h : List.Forall₂ (p.Instantiates c) batches turns)
    (hapart : p.hooks.AskIn Ask.Apart) :
    constructions (turns.flatMap Turn.events) = batches.map fun _ => c := by
  induction h with
  | nil => rfl
  | @cons ms turn batches turns hturn _ ih =>
    have hone : constructions turn.events = [c] := by
      obtain ⟨e, rfl⟩ | ⟨o, t, hevents, hserves⟩ := hturn
      · rfl
      · have hrest : constructions t = [] := (hserves.alone hapart).made
        rw [hevents, ← List.singleton_append, constructions_append, hrest]
        rfl
    rw [List.flatMap_cons, constructions_append, hone, ih]
    rfl

/-- **The state of a handler lives for one batch.**  Of a class one object is made in every batch,
before the first message and also if there is none, and the messages are handed to it in order; so
if objects keep a state of their own, batches of the same messages go the same way under the same
answers, whatever batches were processed before.  With an object or a function for a handler nothing
is made, and the calls of all batches are one sequence. -/
theorem handler_state_per_batch (p : Processor) :
    (∀ name c batches turns, p.Courses (.numbered name c) batches turns →
      List.Forall₂ (p.Instantiates c) batches turns ∧
        (p.hooks.AskIn Ask.Apart →
          constructions (turns.flatMap Turn.events) = batches.map fun _ => c)) ∧
    (∀ name c answer batches turns batches' turns' ms turn turn', p.hooks.AskIn Ask.Apart →
      p.Courses (.numbered name c) (batches ++ [ms]) (turns ++ [turn]) →
      p.Courses (.numbered name c) (batches' ++ [ms]) (turns' ++ [turn']) →
      ByHistory answer [] ((turns ++ [turn]).flatMap Turn.events) →
      ByHistory answer [] ((turns' ++ [turn']).flatMap Turn.events) →
      SameAnswers turn.events turn'.events →
      turn.result = turn'.result ∧
        turn.events.map Event.unnumbered = turn'.events.map Event.unnumbered ∧
        ∃ outcomes, p.Results ms (.numbered name c) turn outcomes ∧
          p.Results ms (.numbered name c) turn' outcomes) ∧
    ∀ o handler batches turns, handler.IsObject o → p.Courses handler batches turns →
      List.Forall₂ (fun ms turn => p.Serves o ms turn.events turn.result) batches turns ∧
        (p.hooks.AskIn Ask.Apart → constructions (turns.flatMap Turn.events) = [] ∧
          handed (turns.flatMap Turn.events) =
            (turns.flatMap fun turn => handedTo o turn.events).map (o, ·)) := by
  have hlast {handler : Handler} {batches : List (List Message)} {turns : List (Turn (List Value))}
      {ms : List Message} {turn : Turn (List Value)}
      (h : p.Courses handler (batches ++ [ms]) (turns ++ [turn])) :
      (p.process ms handler).Ends turn.events turn.result := by
    have hreverse := List.forall₂_reverse_iff.2 h
    rw [List.reverse_append, List.reverse_append] at hreverse
    exact (List.forall₂_cons.1 hreverse).1
  refine ⟨fun name c batches turns h => ?_, ?_, fun o handler batches turns hobject h => ?_⟩
  · have hinstantiates := h.imp fun ms turn hturn => instantiates_of_ends hturn
    exact ⟨hinstantiates, constructions_of_instantiates hinstantiates⟩
  · intro name c answer batches turns batches' turns' ms turn turn' hapart h h' hanswer hanswer'
      hsame
    rw [List.flatMap_append, byHistory_append, List.flatMap_singleton] at hanswer hanswer'
    exact same_of_numbered hapart (hlast h) (hlast h') hanswer.2 hanswer'.2 hsame
  · have hserves := h.imp fun ms turn hturn => serves_of_isObject hobject hturn
    exact ⟨hserves, calls_of_serves hserves⟩

end Processor

namespace Sample

/-- What an object answers that counts its calls. -/
def counting (ms : List Message) : Except Error Value := .ok (.int ms.length)

/-- Surroundings with such objects, numbered in the order in which they are made. -/
def counters : Run.World (List Event) where
  answer q seen :=
    let y : q.Answer := match q with
      | .construct _ => .ok (constructions seen).length
      | .call o m => counting (handedTo o seen ++ [m])
      | q => Run.Answer.default q
    (y, seen ++ [⟨q, y⟩])

/-- A class of them. -/
def counterClass : Handler := .numbered "Counter" 0

/-- A processor without hooks. -/
def plainProcessor : Processor := { processor with hooks := {} }

end Sample

namespace Processor

/-- A message after a batch of two others, and the same message as the first of all: it is the first
one for its object. -/
theorem handler_state_per_batch_sample : ∃ first turn turn',
    Sample.plainProcessor.turnsIn Sample.counterClass Sample.counters
      [[Sample.order "a" [], Sample.order "b" []], [Sample.order "c" []]] [] = [first, turn] ∧
    Sample.plainProcessor.turnsIn Sample.counterClass Sample.counters
      [[Sample.order "c" []]] [] = [turn'] ∧
    first.result = .ok [.int 1, .int 2] ∧ turn'.result = .ok [.int 1] ∧
    turn.result = turn'.result := by
  refine ⟨_, _, _, rfl, rfl, rfl, rfl, ?_⟩
  refine ((handler_state_per_batch Sample.plainProcessor).2.1 "Counter" 0 Sample.counting
    [[Sample.order "a" [], Sample.order "b" []]] [_] [] [] [Sample.order "c" []] _ _
    Hooks.askIn_none
    (courses_turnsIn Sample.plainProcessor Sample.counterClass Sample.counters _ [])
    (courses_turnsIn Sample.plainProcessor Sample.counterClass Sample.counters _ []) ?_ ?_ ?_).1
  · exact .intro rfl (.intro rfl (.intro rfl (.intro trivial (.intro rfl (.intro rfl
      (.intro trivial trivial))))))
  · exact .intro rfl (.intro rfl (.intro trivial trivial))
  · exact sameAnswers_of_eq rfl

end Processor
end PartialBatch
