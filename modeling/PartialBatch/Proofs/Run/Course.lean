/-
# Courses of runs

A course of a run is one way in which it can go: its events, and what it ends in. Surroundings
may answer every question with anything, so what holds of every course holds whatever handlers,
hooks and the queue service do, also if they keep a state of their own or raise an error at any
point.

| run | its courses |
| --- | --- |
| `done a` | no event, the value `a` |
| `raise e` | no event, the error `e` |
| `ask q next` | `q` with an answer, then a course of `next` for that answer |

`ends_bind` takes a course of one run after another apart, and `exists_world` says that no
course is made up: some surroundings give it.  Courses are determined by the answers
(`Ends.result_unique`), and no course is the beginning of another (`Ends.eq_nil_of_append`), so
the events of two runs in sequence can be cut in one place only.
-/

import PartialBatch.Run.Basic
import Mathlib.Logic.Basic

namespace PartialBatch
namespace Run

variable {α β : Type}

/-- Whether a run can go through the events and end in the result. -/
def Ends : Run α → List Event → Except Error α → Prop
  | done a, t, x => t = [] ∧ x = .ok a
  | raise e, t, x => t = [] ∧ x = .error e
  | ask q next, t, x => ∃ answer rest, t = ⟨q, answer⟩ :: rest ∧ Ends (next answer) rest x

/-- Runs in sequence may be taken together from either side. -/
theorem bind_assoc {γ : Type} (r : Run α) (f : α → Run β) (g : β → Run γ) :
    r >>= f >>= g = r >>= fun a => f a >>= g := by
  change bind (bind r f) g = bind r fun a => bind (f a) g
  induction r with
  | done a => rfl
  | raise e => rfl
  | ask q next ih => exact congrArg (ask q) (funext ih)

/-! ## Courses of the parts of a run -/

section Parts

variable {t : List Event}

@[simp] theorem ends_pure {a : α} {x : Except Error α} :
    (pure a : Run α).Ends t x ↔ t = [] ∧ x = .ok a := Iff.rfl

@[simp] theorem ends_raise {e : Error} {x : Except Error α} :
    (raise e : Run α).Ends t x ↔ t = [] ∧ x = .error e := Iff.rfl

@[simp] theorem ends_ofExcept {y x : Except Error α} : (ofExcept y).Ends t x ↔ t = [] ∧ x = y := by
  cases y <;> exact Iff.rfl

@[simp] theorem ends_log {level : Log.Level} {event : Text} {fields : Entries}
    {x : Except Error Unit} :
    (log level event fields).Ends t x ↔
      t = [⟨.log (.ofValues level event fields), ()⟩] ∧ x = .ok () := by
  constructor
  · rintro ⟨answer, rest, rfl, rfl, rfl⟩
    exact ⟨rfl, rfl⟩
  · rintro ⟨rfl, rfl⟩
    exact ⟨(), [], rfl, rfl, rfl⟩

/-- A course of a request: the client is looked for, and its answer is what the run ends in. -/
theorem ends_request {r : Request} {x : Except Error Value} :
    (request r).Ends t x ↔ t = [⟨.client, ()⟩, ⟨.request r, x⟩] := by
  constructor
  · rintro ⟨_, _, rfl, answer, rest, rfl, h⟩
    obtain ⟨rfl, rfl⟩ := ends_ofExcept.1 h
    rfl
  · rintro rfl
    exact ⟨(), _, rfl, x, [], rfl, ends_ofExcept.2 ⟨rfl, rfl⟩⟩

/-- **A course of two runs in sequence** stops in the first, or is a course of the first and
then one of the second. -/
theorem ends_bind {r : Run α} {f : α → Run β} {x : Except Error β} :
    (r >>= f).Ends t x ↔
      (∃ e, r.Ends t (.error e) ∧ x = .error e) ∨
        ∃ t₁ a t₂, r.Ends t₁ (.ok a) ∧ (f a).Ends t₂ x ∧ t = t₁ ++ t₂ := by
  change (bind r f).Ends t x ↔ _
  induction r generalizing t with
  | done a =>
    constructor
    · intro h
      exact .inr ⟨[], a, t, ⟨rfl, rfl⟩, h, rfl⟩
    · rintro (⟨e, ⟨-, he⟩, -⟩ | ⟨_, _, t₂, ⟨rfl, ha⟩, h, rfl⟩)
      · exact absurd he (by simp)
      · obtain rfl := Except.ok.inj ha
        exact h
  | raise e =>
    constructor
    · rintro ⟨rfl, rfl⟩
      exact .inl ⟨e, ⟨rfl, rfl⟩, rfl⟩
    · rintro (⟨e', ⟨rfl, he⟩, rfl⟩ | ⟨_, _, _, ⟨-, ha⟩, -⟩)
      · obtain rfl := Except.error.inj he
        exact ⟨rfl, rfl⟩
      · exact absurd ha (by simp)
  | ask q next ih =>
    constructor
    · rintro ⟨answer, rest, rfl, h⟩
      obtain ⟨e, he, rfl⟩ | ⟨t₁, a, t₂, h₁, h₂, rfl⟩ := (ih answer).1 h
      · exact .inl ⟨e, ⟨answer, rest, rfl, he⟩, rfl⟩
      · exact .inr ⟨_, a, t₂, ⟨answer, t₁, rfl, h₁⟩, h₂, rfl⟩
    · rintro (⟨e, ⟨answer, rest, rfl, he⟩, rfl⟩ | ⟨_, a, t₂, ⟨answer, t₁, rfl, h₁⟩, h₂, rfl⟩)
      · exact ⟨answer, rest, rfl, (ih answer).2 (.inl ⟨e, he, rfl⟩)⟩
      · exact ⟨answer, t₁ ++ t₂, rfl, (ih answer).2 (.inr ⟨t₁, a, t₂, h₁, h₂, rfl⟩)⟩

/-- What follows a course of the first of two runs is a course of the second. -/
theorem ends_bind_append {r : Run α} {f : α → Run β} {u : List Event} {a : α}
    {x : Except Error β} (h : r.Ends t (.ok a)) :
    (r >>= f).Ends (t ++ u) x ↔ (f a).Ends u x := by
  change (bind r f).Ends (t ++ u) x ↔ _
  induction r generalizing t with
  | done b =>
    obtain ⟨rfl, hb⟩ := h
    obtain rfl := Except.ok.inj hb
    exact Iff.rfl
  | raise e => exact absurd h.2 (by simp)
  | ask q next ih =>
    obtain ⟨answer, rest, rfl, h⟩ := h
    constructor
    · rintro ⟨answer', rest', heq, h'⟩
      obtain ⟨⟨-, rfl⟩, rfl⟩ : (True ∧ answer = answer') ∧ rest ++ u = rest' := by simpa using heq
      exact (ih answer h).1 h'
    · intro h'
      exact ⟨answer, rest ++ u, rfl, (ih answer h).2 h'⟩

/-- After a step without events comes a course of the rest, unless the step fails. -/
theorem ends_lift_bind {y : Except Error α} {f : α → Run β} {x : Except Error β} :
    ((liftM y : Run α) >>= f).Ends t x ↔
      (∃ e, y = .error e ∧ t = [] ∧ x = .error e) ∨ ∃ a, y = .ok a ∧ (f a).Ends t x := by
  cases y with
  | error e =>
    change t = [] ∧ x = .error e ↔ _
    simp
  | ok a =>
    change (f a).Ends t x ↔ _
    simp

/-- After a line of the log comes a course of the rest. -/
theorem ends_log_bind {level : Log.Level} {event : Text} {fields : Entries} {f : Unit → Run β}
    {x : Except Error β} :
    (log level event fields >>= f).Ends t x ↔
      ∃ rest, t = ⟨.log (.ofValues level event fields), ()⟩ :: rest ∧ (f ()).Ends rest x := by
  constructor
  · rintro ⟨_, rest, rfl, h⟩
    exact ⟨rest, rfl, h⟩
  · rintro ⟨rest, rfl, h⟩
    exact ⟨(), rest, rfl, h⟩

@[simp] theorem ends_attempt {r : Run α} {x : Except Error (Except Error α)} :
    r.attempt.Ends t x ↔ ∃ y, r.Ends t y ∧ x = .ok y := by
  induction r generalizing t with
  | done a => simp [attempt, Ends, and_assoc]
  | raise e => simp [attempt, Ends, and_assoc]
  | ask q next ih =>
    constructor
    · rintro ⟨answer, rest, rfl, h⟩
      obtain ⟨y, hy, rfl⟩ := (ih answer).1 h
      exact ⟨y, ⟨answer, rest, rfl, hy⟩, rfl⟩
    · rintro ⟨y, ⟨answer, rest, rfl, hy⟩, rfl⟩
      exact ⟨answer, rest, rfl, (ih answer).2 ⟨y, hy, rfl⟩⟩

/-- After a course of an attempt comes one of the rest, whatever it ended in. -/
theorem ends_attempt_bind {r : Run α} {f : Except Error α → Run β} {x : Except Error β} :
    (r.attempt >>= f).Ends t x ↔ ∃ t₁ y t₂, r.Ends t₁ y ∧ (f y).Ends t₂ x ∧ t = t₁ ++ t₂ := by
  rw [ends_bind]
  constructor
  · rintro (⟨e, he, -⟩ | ⟨t₁, y, t₂, h₁, h₂, rfl⟩)
    · obtain ⟨y, -, heq⟩ := ends_attempt.1 he
      cases heq
    · obtain ⟨z, hz, heq⟩ := ends_attempt.1 h₁
      obtain rfl := Except.ok.inj heq
      exact ⟨t₁, y, t₂, hz, h₂, rfl⟩
  · rintro ⟨t₁, y, t₂, h₁, h₂, rfl⟩
    exact .inr ⟨t₁, y, t₂, ends_attempt.2 ⟨y, h₁, rfl⟩, h₂, rfl⟩

end Parts

/-! ## Courses and surroundings -/

/-- What a run does in surroundings is a course of it. -/
theorem ends_exec {σ : Type} (w : World σ) (r : Run α) (s : σ) :
    r.Ends (r.exec w s).1 (r.exec w s).2.1 := by
  induction r generalizing s with
  | done a => exact ⟨rfl, rfl⟩
  | raise e => exact ⟨rfl, rfl⟩
  | ask q next ih => exact ⟨_, _, rfl, ih _ _⟩

section Sequence

variable {σ : Type} {w : World σ} {r : Run α} {f : α → Run β} {s s' : σ} {t : List Event}

@[simp] theorem exec_pure {a : α} : (pure a : Run α).exec w s = ([], .ok a, s) := rfl

@[simp] theorem exec_raise {e : Error} : (raise e : Run α).exec w s = ([], .error e, s) := rfl

theorem exec_ask {q : Ask} {next : q.Answer → Run α} :
    (ask q next).exec w s =
      (⟨q, (w.answer q s).1⟩ :: ((next (w.answer q s).1).exec w (w.answer q s).2).1,
        ((next (w.answer q s).1).exec w (w.answer q s).2).2) := rfl

/-- If the first of two runs ends in an error, that is all they do in these surroundings. -/
theorem exec_bind_of_error {e : Error} (h : r.exec w s = (t, .error e, s')) :
    (r >>= f).exec w s = (t, .error e, s') := by
  change (bind r f).exec w s = _
  induction r generalizing s t with
  | done a => cases h
  | raise e =>
    cases h
    rfl
  | ask q next ih =>
    rw [exec_ask] at h
    obtain ⟨rfl, hend⟩ := Prod.mk.inj h
    rw [bind, exec_ask, ih _ (Prod.ext rfl hend)]

/-- If the first of two runs ends in a value, the second goes on from there. -/
theorem exec_bind_of_ok {a : α} (h : r.exec w s = (t, .ok a, s')) :
    (r >>= f).exec w s = (t ++ ((f a).exec w s').1, ((f a).exec w s').2) := by
  change (bind r f).exec w s = _
  induction r generalizing s t with
  | done b =>
    cases h
    rfl
  | raise e => cases h
  | ask q next ih =>
    rw [exec_ask] at h
    obtain ⟨rfl, hend⟩ := Prod.mk.inj h
    rw [bind, exec_ask, ih _ (Prod.ext rfl hend)]
    rfl

end Sequence

/-- Some answer to a question. -/
def Answer.default : (q : Ask) → q.Answer
  | .construct _ => .ok 0
  | .call _ _ => .ok .null
  | .stray _ => ()
  | .succeeded _ _ => .ok ()
  | .failed _ _ => .ok ()
  | .client => ()
  | .request _ => .ok .null
  | .log _ => ()
  | .bind _ => ()
  | .unbind => ()

/-- Surroundings of a queue service that answers by a rule; anything else is answered somehow. -/
def World.service (serve : Request → Except Error Value) : World Unit where
  answer
    | .request r, _ => (serve r, ())
    | q, _ => (Answer.default q, ())

open Classical in
/-- Surroundings that give the answers of events, one after another. -/
noncomputable def World.replay : World (List Event) where
  answer q
    | [] => (Answer.default q, [])
    | e :: rest => if h : e.ask = q then (h ▸ e.answer, rest) else (Answer.default q, rest)

/-- **Every course is what a run does in some surroundings.** -/
theorem exists_world {r : Run α} {t : List Event} {x : Except Error α} (h : r.Ends t x) :
    ∃ (σ : Type) (w : World σ) (s s' : σ), r.exec w s = (t, x, s') := by
  refine ⟨_, .replay, t, [], ?_⟩
  induction r generalizing t with
  | done a => obtain ⟨rfl, rfl⟩ := h; rfl
  | raise e => obtain ⟨rfl, rfl⟩ := h; rfl
  | ask q next ih =>
    obtain ⟨answer, rest, rfl, h⟩ := h
    have hanswer : World.replay.answer q (⟨q, answer⟩ :: rest) = (answer, rest) := by
      simp [World.replay]
    simp only [exec, hanswer, ih answer h]

/-- The answers determine what a run ends in, and no course goes on where another ends. -/
theorem Ends.eq_nil_of_append {r : Run α} {t u : List Event} {x y : Except Error α}
    (h : r.Ends t x) (h' : r.Ends (t ++ u) y) : u = [] ∧ x = y := by
  induction r generalizing t with
  | done a =>
    obtain ⟨rfl, rfl⟩ := h
    exact ⟨h'.1, h'.2.symm⟩
  | raise e =>
    obtain ⟨rfl, rfl⟩ := h
    exact ⟨h'.1, h'.2.symm⟩
  | ask q next ih =>
    obtain ⟨answer, rest, rfl, h⟩ := h
    obtain ⟨answer', rest', heq, h'⟩ := h'
    obtain ⟨⟨-, rfl⟩, rfl⟩ : (True ∧ answer = answer') ∧ rest ++ u = rest' := by simpa using heq
    exact ih answer h h'

/-- The same answers, the same end. -/
theorem Ends.result_unique {r : Run α} {t : List Event} {x y : Except Error α}
    (h : r.Ends t x) (h' : r.Ends t y) : x = y :=
  (h.eq_nil_of_append (u := []) (by simpa using h')).2

end Run
end PartialBatch
