/-
# The questions of a run

What a run can ask at all, whatever it is answered: all its questions are of one kind (`AsksIn`) if
those of its parts are.  That is said of the run once, part by part, and then holds of every event
of every course (`AsksIn.of_ends`), also of one that is cut short.

| run | asks in `P` if |
| --- | --- |
| `done`, `raise`, a step without events | always |
| a single question | that question is in `P` |
| runs in sequence, an attempt, a choice | the parts do |
-/

import PartialBatch.Proofs.Run.Course

namespace PartialBatch
namespace Run

variable {α β : Type} {P : Ask → Prop} {r : Run α} {t : List Event}

/-- Whether a run asks only questions of a kind, whatever it is answered. -/
def AsksIn (P : Ask → Prop) : Run α → Prop
  | done _ => True
  | raise _ => True
  | ask q next => P q ∧ ∀ answer, AsksIn P (next answer)

namespace AsksIn

theorem pure {a : α} : (Pure.pure a : Run α).AsksIn P := trivial

theorem raise {e : Error} : (Run.raise e : Run α).AsksIn P := trivial

theorem ofExcept {y : Except Error α} : (Run.ofExcept y).AsksIn P := by
  cases y <;> trivial

theorem lift {y : Except Error α} : (liftM y : Run α).AsksIn P := ofExcept

theorem question {q : Ask} {next : q.Answer → Run α} (hq : P q) (h : ∀ a, (next a).AsksIn P) :
    (ask q next).AsksIn P := ⟨hq, h⟩

theorem bind {f : α → Run β} (hr : r.AsksIn P) (hf : ∀ a, (f a).AsksIn P) :
    (r >>= f).AsksIn P := by
  change (Run.bind r f).AsksIn P
  induction r with
  | done a => exact hf a
  | raise e => trivial
  | ask q next ih => exact ⟨hr.1, fun a => ih a (hr.2 a)⟩

/-- After a step without events only its value can go on. -/
theorem lift_bind {y : Except Error α} {f : α → Run β} (hf : ∀ a, y = .ok a → (f a).AsksIn P) :
    ((liftM y : Run α) >>= f).AsksIn P := by
  cases y with
  | error e => trivial
  | ok a => exact hf a rfl

theorem attempt (hr : r.AsksIn P) : r.attempt.AsksIn P := by
  induction r with
  | done a => trivial
  | raise e => trivial
  | ask q next ih => exact ⟨hr.1, fun a => ih a (hr.2 a)⟩

theorem ite {c : Prop} [Decidable c] {s : Run α} (hr : r.AsksIn P) (hs : s.AsksIn P) :
    (if c then r else s).AsksIn P := by
  split
  · exact hr
  · exact hs

theorem mono {Q : Ask → Prop} (hr : r.AsksIn P) (h : ∀ q, P q → Q q) : r.AsksIn Q := by
  induction r with
  | done a => trivial
  | raise e => trivial
  | ask q next ih => exact ⟨h q hr.1, fun a => ih a (hr.2 a)⟩

/-- **Every event of a course asks in `P`.** -/
theorem of_ends {x : Except Error α} (hr : r.AsksIn P) (h : r.Ends t x) :
    ∀ e ∈ t, P e.ask := by
  induction r generalizing t with
  | done a =>
    obtain ⟨rfl, -⟩ := h
    simp
  | raise e =>
    obtain ⟨rfl, -⟩ := h
    simp
  | ask q next ih =>
    obtain ⟨answer, rest, rfl, h⟩ := h
    exact List.forall_mem_cons.2 ⟨hr.1, ih answer (hr.2 answer) h⟩

end AsksIn
end Run
end PartialBatch
