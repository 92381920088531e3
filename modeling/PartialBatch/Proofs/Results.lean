/-
# Lists of results

Facts about results and lists that the proofs about batches share: steps in sequence succeed if each
of them does (`bind_eq_ok`); a result taken as an option tells what it succeeded with
(`toOption_eq_some`); a list of steps succeeds if each step does (`mapM_eq_ok`), and fails with
the first that does not (`first_of_mapM_eq_error`); an element of two lists in sequence is in one of
them (`split_append`).  What steps fail with is of a kind if that is so of each of them (`Raises`).
-/

import Mathlib.Data.List.Basic

namespace PartialBatch

variable {α β ε : Type}

/-- Two steps in sequence succeed if the first does, and then the second. -/
theorem bind_eq_ok {x : Except ε α} {f : α → Except ε β} {b : β} :
    x >>= f = .ok b ↔ ∃ a, x = .ok a ∧ f a = .ok b := by
  cases x <;> simp [bind, Except.bind]

theorem toOption_eq_some {x : Except ε α} {a : α} : x.toOption = some a ↔ x = .ok a := by
  cases x <;> simp [Except.toOption]

theorem cons_eq_ok {x : Except ε β} {r : Except ε (List β)} {ys : List β} :
    (x >>= fun y => r >>= fun ys => pure (y :: ys)) = .ok ys ↔
      ∃ z zs, x = .ok z ∧ r = .ok zs ∧ ys = z :: zs := by
  cases x with
  | error e => simp [bind, Except.bind]
  | ok z => cases r <;> simp [bind, Except.bind, pure, Except.pure, eq_comm]

/-- Going through a list succeeds with the results of its elements. -/
theorem mapM_eq_ok {f : α → Except ε β} {xs : List α} {ys : List β} :
    xs.mapM f = .ok ys ↔ xs.map f = ys.map .ok := by
  induction xs generalizing ys with
  | nil => cases ys <;> simp [pure, Except.pure]
  | cons x xs ih =>
    rw [List.mapM_cons, List.map_cons, cons_eq_ok]
    constructor
    · rintro ⟨z, zs, hx, hxs, rfl⟩
      rw [List.map_cons, hx, ih.1 hxs]
    · intro h
      cases ys with
      | nil => cases h
      | cons z zs =>
        rw [List.map_cons, List.cons.injEq] at h
        exact ⟨z, zs, h.1, ih.2 h.2, rfl⟩

/-- Going through a list fails with the first element that fails. -/
theorem first_of_mapM_eq_error {f : α → Except ε β} {xs : List α} {e : ε}
    (h : xs.mapM f = .error e) :
    ∃ before x after, ∃ ys : List β, xs = before ++ x :: after ∧ before.map f = ys.map .ok ∧
      f x = .error e := by
  induction xs with
  | nil => cases h
  | cons x xs ih =>
    rw [List.mapM_cons] at h
    cases hx : f x with
    | error e' =>
      rw [hx] at h
      obtain rfl := Except.error.inj h
      exact ⟨[], x, xs, [], rfl, rfl, hx⟩
    | ok y =>
      cases hxs : xs.mapM f with
      | error e' =>
        rw [hx, hxs] at h
        obtain rfl := Except.error.inj h
        obtain ⟨before, z, after, ys, rfl, hbefore, hz⟩ := ih hxs
        refine ⟨x :: before, z, after, y :: ys, rfl, ?_, hz⟩
        rw [List.map_cons, hx, hbefore, List.map_cons]
      | ok ys => rw [hx, hxs] at h; cases h

/-- Whether a result, if it is an error, is one of a kind. -/
def Raises (P : ε → Prop) (y : Except ε α) : Prop := ∀ e, y = .error e → P e

namespace Raises

variable {P : ε → Prop} {y : Except ε α}

theorem ok {a : α} : Raises P (.ok a : Except ε α) := fun _ h => nomatch h

theorem error {e : ε} (h : P e) : Raises P (.error e : Except ε α) := by
  intro f hf
  rwa [← Except.error.inj hf]

theorem bind {f : α → Except ε β} (hy : Raises P y) (hf : ∀ a, Raises P (f a)) :
    Raises P (y >>= f) := by
  cases y with
  | error e => exact error (hy e rfl)
  | ok a => exact hf a

theorem mapM {f : α → Except ε β} (hf : ∀ a, Raises P (f a)) (xs : List α) :
    Raises P (xs.mapM f) := by
  induction xs with
  | nil => exact ok
  | cons x xs ih =>
    rw [List.mapM_cons]
    exact (hf x).bind fun y => ih.bind fun ys => ok

theorem mono {Q : ε → Prop} (hy : Raises P y) (hPQ : ∀ e, P e → Q e) : Raises Q y :=
  fun e he => hPQ e (hy e he)

end Raises

/-- An element of two lists in sequence is in the first or in the second. -/
theorem split_append {xs ys before after : List α} {x : α}
    (h : xs ++ ys = before ++ x :: after) :
    (∃ mid, xs = before ++ x :: mid ∧ after = mid ++ ys) ∨
      ∃ mid, before = xs ++ mid ∧ ys = mid ++ x :: after := by
  obtain ⟨mid, hbefore, hys⟩ | ⟨mid, hxs, hafter⟩ := List.append_eq_append_iff.1 h
  · exact .inr ⟨mid, hbefore, hys⟩
  · cases mid with
    | nil => exact .inr ⟨[], by simpa using hxs.symm, by simpa using hafter.symm⟩
    | cons y mid =>
      obtain ⟨rfl, rfl⟩ : x = y ∧ after = mid ++ ys := by simpa using hafter
      exact .inl ⟨mid, hxs, rfl⟩

end PartialBatch
