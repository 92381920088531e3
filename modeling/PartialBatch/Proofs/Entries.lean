/-
# Entries under keys

What is under a key after entries were written, changed or left out.  A key has the entry that
stands first under it, so the order matters only if keys are repeated: entries with distinct keys
hold the same in every order (`get?_perm`).  Of entries that are written one after another it is the
last one under a key that stays there (`get?_putAll`).
-/

import PartialBatch.Value.Basic
import Mathlib.Data.List.Basic
import Mathlib.Data.List.Nodup

namespace PartialBatch
namespace Entries

variable {α β : Type} {es : Entries α} {key other : Text} {a : α}

theorem get?_cons {k : Text} {b : α} :
    get? ((k, b) :: es) key = if k = key then some b else es.get? key := by
  by_cases h : k = key
  · simp [get?, h]
  · have hbeq : (key == k) = false := by simpa using Ne.symm h
    simp only [get?, List.lookup_cons, hbeq, if_neg h]

theorem get?_eq_none (h : ∀ e ∈ es, e.1 ≠ key) : es.get? key = none :=
  List.lookup_eq_none_iff.2 fun e he => by simpa using Ne.symm (h e he)

/-- What is under a key after something was written. -/
theorem get?_put : (es.put other a).get? key = if other = key then some a else es.get? key := by
  induction es with
  | nil => exact get?_cons
  | cons e rest ih =>
    obtain ⟨k, b⟩ := e
    by_cases hk : k = other
    · subst hk
      rw [put, if_pos rfl, get?_cons, get?_cons]
      split <;> rfl
    · rw [put, if_neg hk, get?_cons, get?_cons, ih]
      by_cases hkey : k = key
      · rw [if_pos hkey, if_pos hkey, if_neg fun h => hk (hkey.trans h.symm)]
      · rw [if_neg hkey, if_neg hkey]

/-- What is under another key is not changed by writing. -/
theorem get?_put_of_ne (h : other ≠ key) : (es.put other a).get? key = es.get? key := by
  rw [get?_put, if_neg h]

theorem get?_put_self : (es.put key a).get? key = some a := by rw [get?_put, if_pos rfl]

/-- What holds of all entries holds of them after one more for which it holds was written. -/
theorem forall_put {P : α → Prop} (hes : ∀ e ∈ es, P e.2) (ha : P a) :
    ∀ e ∈ es.put key a, P e.2 := by
  induction es with
  | nil => exact List.forall_mem_singleton.2 ha
  | cons e rest ih =>
    obtain ⟨k, b⟩ := e
    obtain ⟨hb, hrest⟩ := List.forall_mem_cons.1 hes
    unfold put
    split
    · exact List.forall_mem_cons.2 ⟨ha, hrest⟩
    · exact List.forall_mem_cons.2 ⟨hb, ih hrest⟩

/-- Entries with changed values hold them under the same keys. -/
theorem get?_map {f : α → β} :
    get? (es.map fun e => (e.1, f e.2)) key = (es.get? key).map f := by
  induction es with
  | nil => rfl
  | cons e rest ih =>
    obtain ⟨k, b⟩ := e
    rw [List.map_cons, get?_cons, get?_cons, ih]
    split <;> rfl

/-- Leaving out entries does not change what is under a key that is kept. -/
theorem get?_filter {kept : Text → Bool} (h : kept key = true) :
    get? (es.filter fun e => kept e.1) key = es.get? key := by
  induction es with
  | nil => rfl
  | cons e rest ih =>
    obtain ⟨k, b⟩ := e
    rw [List.filter_cons]
    split
    · rw [get?_cons, get?_cons, ih]
    · rename_i hk
      rw [ih, get?_cons, if_neg fun heq : k = key => hk (heq ▸ h)]

/-- Leaving out the entries of one key does not change what is under another. -/
theorem get?_filter_of_ne (h : other ≠ key) :
    get? (es.filter fun e => e.1 ≠ other) key = es.get? key :=
  @get?_filter _ es key (fun k => k ≠ other) (by simpa using Ne.symm h)

/-- Under a key that is there once stands its entry. -/
theorem get?_eq_some_iff (hnodup : (es.map Prod.fst).Nodup) :
    es.get? key = some a ↔ (key, a) ∈ es := by
  induction es with
  | nil => simp [get?]
  | cons e rest ih =>
    obtain ⟨k, b⟩ := e
    rw [List.map_cons, List.nodup_cons] at hnodup
    rw [get?_cons, List.mem_cons, Prod.mk.injEq]
    by_cases hk : k = key
    · subst hk
      have hout : (k, a) ∉ rest := fun hmem => hnodup.1 (List.mem_map.2 ⟨_, hmem, rfl⟩)
      simp [hout, eq_comm]
    · rw [if_neg hk, ih hnodup.2]
      simp [Ne.symm hk]

/-- **Entries with distinct keys hold the same in every order.** -/
theorem get?_perm {es' : Entries α} (hperm : es.Perm es') (hnodup : (es.map Prod.fst).Nodup) :
    es.get? key = es'.get? key := by
  have hnodup' : (es'.map Prod.fst).Nodup := (hperm.map _).nodup_iff.1 hnodup
  refine Option.ext fun a => ?_
  rw [get?_eq_some_iff hnodup, get?_eq_some_iff hnodup', hperm.mem_iff]

/-- After all of a list were written, what its last entry under a key says is there. -/
theorem get?_putAll {new : Entries α} : (es.putAll new).get? key =
    ((new.filter fun e => e.1 = key).getLast?.map Prod.snd).or (es.get? key) := by
  induction new generalizing es with
  | nil => rfl
  | cons e rest ih =>
    obtain ⟨k, a⟩ := e
    change ((es.put k a).putAll rest).get? key = _
    rw [ih, get?_put, List.filter_cons]
    by_cases hk : k = key
    · rw [if_pos hk, if_pos (by simpa using hk), List.getLast?_cons]
      cases (rest.filter fun e => e.1 = key).getLast? <;> rfl
    · rw [if_neg hk, if_neg (by simpa using hk)]

end Entries
end PartialBatch
