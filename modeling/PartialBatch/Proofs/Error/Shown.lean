/-
# What can be shown

A value can be shown unless an integer in it has too many digits, or a list or an object is inside
too many others (`Value.exists_shownWithin_iff`).  Messages of errors need that of the values in them:

| asked for | exists if | otherwise |
| --- | --- | --- |
| an error as it is shown | its arguments, or its message, can be shown | the error of showing |
| the message of a report | its errors can be shown | the same |
| the text of an error | what it tells can be shown | the same, or an error of its own |

For the first two rows this is said of the data alone (`exists_shown_iff`, `exists_lines_iff`).
An error has its own reason to have no text in two cases: its class words it and raises, or it is
coded, without a code that counts as true, and its message is no text (`text_eq_error`).
-/

import PartialBatch.Batch.Report
import PartialBatch.Proofs.Results

namespace PartialBatch

/-! ## Values -/

namespace Value

/-- Whether a value can be shown with so many levels of lists and objects. -/
inductive IsShowable : Nat → Value → Prop
  | null {k : Nat} : IsShowable k null
  | bool {k : Nat} {b : Bool} : IsShowable k (bool b)
  | int {k : Nat} {n : Int} (h : (Text.ofNat n.natAbs).length ≤ Text.maxDigits) :
      IsShowable k (int n)
  | float {k : Nat} {x : Binary64} : IsShowable k (float x)
  | text {k : Nat} {t : Text} : IsShowable k (text t)
  | bytes {k : Nat} {b : List UInt8} : IsShowable k (bytes b)
  | list {k : Nat} {vs : List Value} (h : ∀ v ∈ vs, IsShowable k v) : IsShowable (k + 1) (list vs)
  | object {k : Nat} {es : List (Text × Value)} (h : ∀ e ∈ es, IsShowable k e.2) :
      IsShowable (k + 1) (object es)

theorem exists_bind_pure_iff {ε α β : Type} {x : Except ε α} {f : α → β} :
    (∃ b, (x >>= fun a => pure (f a)) = .ok b) ↔ ∃ a, x = .ok a := by
  cases x <;> simp [bind, Except.bind, pure, Except.pure]

mutual

/-- **What can be shown**: every level that is needed is there, and every integer is short
enough. -/
theorem exists_shownWithin_iff :
    (v : Value) → ∀ {k}, (∃ t, v.shownWithin k = .ok t) ↔ IsShowable k v
  | null, _ => ⟨fun _ => .null, fun _ => ⟨_, rfl⟩⟩
  | bool true, _ | bool false, _ => ⟨fun _ => .bool, fun _ => ⟨_, rfl⟩⟩
  | float _, _ => ⟨fun _ => .float, fun _ => ⟨_, rfl⟩⟩
  | text _, _ => ⟨fun _ => .text, fun _ => ⟨_, rfl⟩⟩
  | bytes _, _ => ⟨fun _ => .bytes, fun _ => ⟨_, rfl⟩⟩
  | int n, _ => by
    rw [shownWithin]
    split
    · exact ⟨fun _ => .int ‹_›, fun _ => ⟨_, rfl⟩⟩
    · rename_i hlong
      exact ⟨fun ⟨_, h⟩ => (nomatch h), fun h => by cases h with | int h => exact absurd h hlong⟩
  | list vs, 0 | object es, 0 => by
    rw [shownWithin, if_pos rfl]
    exact ⟨fun ⟨_, h⟩ => (nomatch h), fun h => (nomatch h)⟩
  | list vs, k + 1 => by
    rw [shownWithin, if_neg (Nat.succ_ne_zero k), exists_bind_pure_iff, Nat.add_sub_cancel,
      exists_shownList_iff vs]
    exact ⟨.list, fun h => by cases h with | list h => exact h⟩
  | object es, k + 1 => by
    rw [shownWithin, if_neg (Nat.succ_ne_zero k), exists_bind_pure_iff, Nat.add_sub_cancel,
      exists_shownEntries_iff es]
    exact ⟨.object, fun h => by cases h with | object h => exact h⟩

theorem exists_shownList_iff : (vs : List Value) →
    ∀ {k}, (∃ ts, shownList k vs = .ok ts) ↔ ∀ v ∈ vs, IsShowable k v
  | [], _ => ⟨fun _ => List.forall_mem_nil _, fun _ => ⟨[], rfl⟩⟩
  | v :: vs, _ => by
    rw [List.forall_mem_cons, ← exists_shownWithin_iff v, ← exists_shownList_iff vs, shownList]
    simp only [cons_eq_ok]
    exact ⟨fun ⟨_, t, ts, ht, hts, _⟩ => ⟨⟨t, ht⟩, ts, hts⟩,
      fun ⟨⟨t, ht⟩, ts, hts⟩ => ⟨_, t, ts, ht, hts, rfl⟩⟩

theorem exists_shownEntries_iff : (es : List (Text × Value)) →
    ∀ {k}, (∃ ts, shownEntries k es = .ok ts) ↔ ∀ e ∈ es, IsShowable k e.2
  | [], _ => ⟨fun _ => List.forall_mem_nil _, fun _ => ⟨[], rfl⟩⟩
  | (key, v) :: es, _ => by
    rw [List.forall_mem_cons, ← exists_shownWithin_iff v, ← exists_shownEntries_iff es,
      shownEntries]
    simp only [bind_eq_ok]
    exact ⟨fun ⟨_, t, ht, ts, hts, _⟩ => ⟨⟨t, ht⟩, ts, hts⟩,
      fun ⟨⟨t, ht⟩, ts, hts⟩ => ⟨_, t, ht, ts, hts, rfl⟩⟩

end

end Value

/-! ## Errors -/

namespace Error

variable {e f : Error} {v : Value} {t : Text} {ts : List Text}
  {failures : List (Message × Error)} {values : List Value} {errors : List Error}
  {failed : List Message}

/-- Whether an error can be shown: what it has to show of itself can be. -/
inductive IsShowable : Error → Prop
  | ordinary {cls : ErrorClass} {args files : List Value} {code : Option Value}
      (h : ∀ v ∈ args, v.IsShowable Value.maxDepth) : IsShowable (ordinary cls args files code)
  | worded {cls : ErrorClass} {args : List Value} {code : Option Value} {words : Except Error Text}
      (h : ∀ v ∈ args, v.IsShowable Value.maxDepth) : IsShowable (worded cls args code words)
  | unworded {cls : ErrorClass} : IsShowable (unworded cls)
  | coded {parts : Coded} (h : parts.message.IsShowable Value.maxDepth) : IsShowable (coded parts)
  | report {failures : List (Message × Error)} {values : List Value} {code : Value}
      (h : ∀ f ∈ failures, IsShowable f.2) : IsShowable (report failures values code)

/-- Whether an error is that of showing what cannot be shown. -/
def IsUnshown (e : Error) : Prop := ∃ fault, e = ofShowFault fault

/-- What cannot be shown is a wrong value, or goes too deep. -/
theorem IsUnshown.isA (h : e.IsUnshown) :
    e.isA .valueError = true ∨ e.isA .recursionError = true := by
  obtain ⟨fault, rfl⟩ := h
  cases fault with
  | digits => exact .inl rfl
  | depth => exact .inr rfl

theorem exists_showing_iff :
    (∃ t, showing v = .ok t) ↔ v.IsShowable Value.maxDepth := by
  rw [← v.exists_shownWithin_iff]
  change (∃ t, v.shown.mapError ofShowFault = .ok t) ↔ ∃ t, v.shown = .ok t
  cases v.shown <;> simp [Except.mapError]

/-- Values are shown if each of them can be. -/
theorem exists_showingAll_iff {separator : Text} {vs : List Value} :
    (∃ t, showingAll separator vs = .ok t) ↔ ∀ v ∈ vs, v.IsShowable Value.maxDepth := by
  unfold showingAll
  rw [Value.exists_bind_pure_iff]
  induction vs with
  | nil => exact ⟨fun _ => List.forall_mem_nil _, fun _ => ⟨[], rfl⟩⟩
  | cons v vs ih =>
    rw [List.forall_mem_cons, ← exists_showing_iff, ← ih, List.mapM_cons]
    simp only [cons_eq_ok]
    exact ⟨fun ⟨_, t, ts, ht, hts, _⟩ => ⟨⟨t, ht⟩, ts, hts⟩,
      fun ⟨⟨t, ht⟩, ts, hts⟩ => ⟨_, t, ts, ht, hts, rfl⟩⟩

mutual

/-- **An error is shown if it can be.** -/
theorem exists_shown_iff : (e : Error) → ((∃ t, e.shown = .ok t) ↔ e.IsShowable)
  | ordinary .. => by
    rw [shown, Value.exists_bind_pure_iff, exists_showingAll_iff]
    exact ⟨.ordinary, fun h => by cases h with | ordinary h => exact h⟩
  | worded .. => by
    rw [shown, Value.exists_bind_pure_iff, exists_showingAll_iff]
    exact ⟨.worded, fun h => by cases h with | worded h => exact h⟩
  | unworded _ => ⟨fun _ => .unworded, fun _ => ⟨_, rfl⟩⟩
  | coded _ => by
    rw [shown, Value.exists_bind_pure_iff, exists_showing_iff]
    exact ⟨.coded, fun h => by cases h with | coded h => exact h⟩
  | report failures _ _ => by
    rw [shown, Value.exists_bind_pure_iff, exists_shownAll_iff failures]
    exact ⟨.report, fun h => by cases h with | report h => exact h⟩

theorem exists_shownAll_iff : (failures : List (Message × Error)) →
    ((∃ ts, shownAll failures = .ok ts) ↔ ∀ f ∈ failures, f.2.IsShowable)
  | [] => ⟨fun _ => List.forall_mem_nil _, fun _ => ⟨[], rfl⟩⟩
  | (_, e) :: rest => by
    rw [List.forall_mem_cons, ← exists_shown_iff e, ← exists_shownAll_iff rest, shownAll]
    simp only [cons_eq_ok]
    exact ⟨fun ⟨_, t, ts, ht, hts, _⟩ => ⟨⟨t, ht⟩, ts, hts⟩,
      fun ⟨⟨t, ht⟩, ts, hts⟩ => ⟨_, t, ts, ht, hts, rfl⟩⟩

end

/-! ### What showing raises -/

open Raises

theorem raises_showing (v : Value) : Raises IsUnshown (showing v) := by
  unfold showing
  cases v.shown with
  | error fault => exact error ⟨fault, rfl⟩
  | ok t => exact ok

theorem raises_telling (v : Value) : Raises IsUnshown (telling v) := by
  unfold telling
  cases v.plain with
  | error fault => exact error ⟨fault, rfl⟩
  | ok t => exact ok

theorem raises_showingAll (separator : Text) (vs : List Value) :
    Raises IsUnshown (showingAll separator vs) :=
  (Raises.mapM raises_showing vs).bind fun _ => ok

mutual

/-- **An error that is not shown raises the error of showing.** -/
theorem raises_shown : (e : Error) → Raises IsUnshown e.shown
  | ordinary .. | worded .. => by
    rw [shown]
    exact (raises_showingAll _ _).bind fun _ => ok
  | unworded _ => ok
  | coded _ => by
    rw [shown]
    exact (raises_showing _).bind fun _ => ok
  | report failures _ _ => by
    rw [shown]
    exact (raises_shownAll failures).bind fun _ => ok

theorem raises_shownAll : (failures : List (Message × Error)) →
    Raises IsUnshown (shownAll failures)
  | [] => ok
  | (_, e) :: rest => by
    rw [shownAll]
    exact (raises_shown e).bind fun _ => (raises_shownAll rest).bind fun _ => ok

end

theorem raises_lines (failures : List (Message × Error)) : Raises IsUnshown (lines failures) :=
  (raises_shownAll failures).bind fun _ => ok

/-! ### Reports -/

theorem shownAll_eq_ok : shownAll failures = .ok ts ↔
    failures.map (fun f => f.2.shown) = ts.map .ok := by
  induction failures generalizing ts with
  | nil => cases ts <;> simp [shownAll]
  | cons failure rest ih =>
    rw [shownAll, cons_eq_ok, List.map_cons]
    constructor
    · rintro ⟨t, ts, ht, hts, rfl⟩
      rw [ht, ih.1 hts, List.map_cons]
    · intro h
      cases ts with
      | nil => cases h
      | cons t ts =>
        obtain ⟨ht, hts⟩ := List.cons.inj h
        exact ⟨t, ts, ht, ih.2 hts, rfl⟩

/-- **A report has a message if each of its errors can be shown.** -/
theorem exists_lines_iff :
    (∃ t, lines failures = .ok t) ↔ ∀ f ∈ failures, f.2.IsShowable := by
  unfold lines
  rw [Value.exists_bind_pure_iff, exists_shownAll_iff]

/-- A report without a message fails with the error of showing one of its errors. -/
theorem exists_of_lines_eq_error (h : lines failures = .error e) :
    ∃ f ∈ failures, f.2.shown = .error e := by
  have hall : shownAll failures = .error e := by
    unfold lines at h
    cases hall : shownAll failures with
    | error f =>
      rw [hall] at h
      obtain rfl := Except.error.inj h
      rfl
    | ok ts => rw [hall] at h; cases h
  clear h
  induction failures with
  | nil => cases hall
  | cons f rest ih =>
    rw [shownAll] at hall
    cases hshown : f.2.shown with
    | error g =>
      rw [hshown] at hall
      obtain rfl := Except.error.inj hall
      exact ⟨f, List.mem_cons_self .., hshown⟩
    | ok t =>
      cases hrest : shownAll rest with
      | error g =>
        rw [hshown, hrest] at hall
        obtain ⟨f', hf', hshown'⟩ := ih (hrest.trans hall)
        exact ⟨f', List.mem_cons_of_mem _ hf', hshown'⟩
      | ok ts => rw [hshown, hrest] at hall; cases hall

theorem reporting_eq_ok : reporting failures values = .ok e ↔
    (∃ t, lines failures = .ok t) ∧ e = reported failures values := by
  unfold reporting
  rw [bind_eq_ok]
  simp [pure, Except.pure, eq_comm]

/-! ### Texts -/

/-- **Why an error has no text**: what it tells cannot be shown, or its class raises when it words
the error, or it is coded, without a code that counts as true, and its message is no text. -/
theorem text_eq_error (h : e.text = .error f) : f.IsUnshown ∨
    (∃ cls args code, e = worded cls args code (.error f)) ∨
      ∃ parts, e = coded parts ∧ parts.code.truthy = false ∧ (∀ t, parts.message ≠ .text t) ∧
        f = unworded .typeError := by
  have htagged {code message : Value} (h : tagged code message = .error f) : f.IsUnshown ∨
      code.truthy = false ∧ (∀ t, message ≠ .text t) ∧ f = unworded .typeError := by
    unfold tagged at h
    split at h
    · exact .inl (((raises_telling _).bind fun _ => (raises_telling _).bind fun _ => ok) f h)
    · rename_i hcode
      split at h
      · cases h
      · rename_i hmessage
        exact .inr ⟨Bool.eq_false_iff.2 hcode, hmessage, (Except.error.inj h).symm⟩
  cases e with
  | ordinary cls args files code =>
    have hargs : Raises IsUnshown (argumentText cls args files) := by
      unfold argumentText
      split
      · exact ok
      · split
        · exact raises_showing _
        · exact raises_telling _
      · split
        · refine (raises_telling _).bind fun _ => (raises_telling _).bind fun _ => ?_
          have hfiles : Raises IsUnshown (filesText files) := by
            unfold filesText
            split
            · exact ok
            · exact (raises_showingAll _ _).bind fun _ => ok
          exact hfiles.bind fun _ => ok
        · exact (raises_showingAll _ _).bind fun _ => ok
    exact .inl (hargs f h)
  | worded cls args code words => exact .inr (.inl ⟨cls, args, code, congrArg _ h⟩)
  | unworded => cases h
  | coded parts =>
    exact (htagged h).imp_right fun hmute => .inr ⟨parts, rfl, hmute⟩
  | report failures values code =>
    change (lines failures >>= fun t => tagged code (.text t)) = _ at h
    cases hlines : lines failures with
    | error g =>
      rw [hlines] at h
      exact .inl (Except.error.inj h ▸ raises_lines failures g hlines)
    | ok t =>
      rw [hlines] at h
      change tagged code (.text t) = _ at h
      exact .inl ((htagged h).resolve_right fun ⟨_, hmessage, _⟩ => hmessage t rfl)

end Error
end PartialBatch
