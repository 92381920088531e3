/-
# Unguarded runs

A run is unguarded if it only logs and calls the queue service, and raises what the service
raises:

| question | then |
| --- | --- |
| `client`, `log` | it goes on |
| `request`, answered with a value | it goes on as the value says |
| `request`, answered with an error | it raises that error |

So a call that fails is the last event of an unguarded run (`Unguarded.eq_nil_of_error`), and the
answers so far determine which call is next (`Unguarded.requests_take`). Runs in sequence are
unguarded if each of them is (`Unguarded.bind`); that is all there is to know of a run that is put
together from calls and lines of the log.
-/

import PartialBatch.Proofs.Queue.Calls

namespace PartialBatch
namespace Run

variable {α β : Type} {r : Run α} {t u : List Event} {x y : Except Error α}

/-- Whether a run only logs and calls the queue service, and raises what that raises. -/
inductive Unguarded : Run α → Prop
  | done {a : α} : Unguarded (done a)
  | raise {e : Error} : Unguarded (raise e)
  | client {next : Ask.client.Answer → Run α} (h : Unguarded (next ())) :
      Unguarded (ask .client next)
  | log {entry : Log.Entry} {next : (Ask.log entry).Answer → Run α} (h : Unguarded (next ())) :
      Unguarded (ask (.log entry) next)
  | request {q : Request} {next : (Ask.request q).Answer → Run α}
      (hraise : ∀ e, next (.error e) = .raise e) (h : ∀ v, Unguarded (next (.ok v))) :
      Unguarded (ask (.request q) next)

namespace Unguarded

/-! ## Putting runs together -/

theorem bind {f : α → Run β} (hr : r.Unguarded) (hf : ∀ a, (f a).Unguarded) :
    (r >>= f).Unguarded := by
  change (Run.bind r f).Unguarded
  induction hr with
  | done => exact hf _
  | raise => exact .raise
  | client _ ih => exact .client ih
  | log _ ih => exact .log ih
  | request hraise _ ih =>
    refine .request (fun e => ?_) ih
    rw [hraise]
    rfl

theorem lift {y : Except Error α} : (liftM y : Run α).Unguarded := by
  cases y with
  | error e => exact .raise
  | ok a => exact .done

theorem line {level : Log.Level} {event : Text} {fields : Entries} :
    (Run.log level event fields).Unguarded := .log .done

theorem call {q : Request} : (Run.request q).Unguarded :=
  .client (.request (fun _ => rfl) fun _ => .done)

theorem ite {c : Prop} [Decidable c] {s : Run α} (hr : r.Unguarded) (hs : s.Unguarded) :
    (if c then r else s).Unguarded := by
  split
  · exact hr
  · exact hs

/-! ## What answers do -/

/-- **A call that fails is the last event**, and its error is what the run ends in. -/
theorem eq_nil_of_error (hr : r.Unguarded) {before after : List Event} {q : Request} {e : Error}
    (h : r.Ends (before ++ ⟨.request q, .error e⟩ :: after) x) : after = [] ∧ x = .error e := by
  induction hr generalizing before with
  | done => simp [Ends] at h
  | raise => simp [Ends] at h
  | client _ ih =>
    obtain ⟨answer, rest, heq, h⟩ := h
    cases before with
    | nil => cases heq
    | cons first before =>
      obtain ⟨-, rfl⟩ := List.cons.inj heq
      exact ih h
  | log _ ih =>
    obtain ⟨answer, rest, heq, h⟩ := h
    cases before with
    | nil => cases heq
    | cons first before =>
      obtain ⟨-, rfl⟩ := List.cons.inj heq
      exact ih h
  | @request _ next hraise _ ih =>
    obtain ⟨answer, rest, heq, h⟩ := h
    cases before with
    | nil =>
      cases heq
      rw [hraise] at h
      exact ends_raise.1 h
    | cons first before =>
      obtain ⟨-, rfl⟩ := List.cons.inj heq
      cases answer with
      | error f =>
        rw [hraise] at h
        simp [Ends] at h
      | ok v => exact ih v h

/-- **The answers determine the calls.** If the first `k` answers of two courses are the same, so
are their first `k + 1` requests. -/
theorem requests_take (hr : r.Unguarded) (ht : r.Ends t x) (hu : r.Ends u y) {k : Nat}
    (hanswers : ((calls t).map Call.answer).take k = ((calls u).map Call.answer).take k) :
    ((calls t).map Call.request).take (k + 1) = ((calls u).map Call.request).take (k + 1) := by
  induction hr generalizing t u k with
  | done =>
    obtain ⟨rfl, -⟩ := ht
    obtain ⟨rfl, -⟩ := hu
    rfl
  | raise =>
    obtain ⟨rfl, -⟩ := ht
    obtain ⟨rfl, -⟩ := hu
    rfl
  | client _ ih =>
    obtain ⟨_, t, rfl, ht⟩ := ht
    obtain ⟨_, u, rfl, hu⟩ := hu
    exact ih ht hu hanswers
  | log _ ih =>
    obtain ⟨_, t, rfl, ht⟩ := ht
    obtain ⟨_, u, rfl, hu⟩ := hu
    exact ih ht hu hanswers
  | @request q next hraise _ ih =>
    obtain ⟨a, t, rfl, ht⟩ := ht
    obtain ⟨b, u, rfl, hu⟩ := hu
    change (q :: (calls t).map Call.request).take (k + 1) =
      (q :: (calls u).map Call.request).take (k + 1)
    rw [List.take_succ_cons, List.take_succ_cons]
    cases k with
    | zero => rfl
    | succ k =>
      change (a :: (calls t).map Call.answer).take (k + 1) =
        (b :: (calls u).map Call.answer).take (k + 1) at hanswers
      rw [List.take_succ_cons, List.take_succ_cons] at hanswers
      obtain ⟨rfl, hrest⟩ := List.cons.inj hanswers
      cases a with
      | error e =>
        rw [hraise] at ht hu
        obtain ⟨rfl, -⟩ := ends_raise.1 ht
        obtain ⟨rfl, -⟩ := ends_raise.1 hu
        rfl
      | ok v => rw [ih v ht hu hrest]

end Unguarded
end Run

/-! ## Calls among events -/

/-- A call stands among the events. -/
theorem exists_of_calls_eq {t : List Event} {before after : List Call} {r : Request}
    {answer : Except Error Value} (h : calls t = before ++ ⟨r, answer⟩ :: after) :
    ∃ t₁ t₂, t = t₁ ++ ⟨.request r, answer⟩ :: t₂ ∧ calls t₁ = before ∧ calls t₂ = after := by
  obtain ⟨t₁, rest, rfl, hbefore, hrest⟩ := List.filterMap_eq_append_iff.1 h
  obtain ⟨skipped, ⟨q, a⟩, t₂, rfl, hskipped, hcall, hafter⟩ := List.filterMap_eq_cons_iff.1 hrest
  have hnone : calls skipped = [] := List.filterMap_eq_nil_iff.2 hskipped
  cases q with
  | request r' =>
    obtain ⟨rfl, rfl⟩ := Call.mk.inj (Option.some.inj hcall)
    refine ⟨t₁ ++ skipped, t₂, by simp, ?_, hafter⟩
    rw [calls_append, hnone, List.append_nil]
    exact hbefore
  | _ => cases hcall

end PartialBatch
