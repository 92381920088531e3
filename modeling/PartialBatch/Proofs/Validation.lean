/-
# What fields may hold

What a record has to look like is said here without its readers.  A shape says which values a field
may have (`Shape.Admits`), and where a value of another shape goes wrong (`Shape.Faulty`): at the
value itself, or inside an object at the first entry whose value is not admitted.  A part of a
record has a shape, two keys under which it is looked for, and a default unless it is required.

| | says |
| --- | --- |
| `FieldReader.Reads` | a reader accepts the values of a shape, and finds the fault of any other |
| `Checked.Settles` | a check accepts what some parts accept, and finds the first part that does not |

Each reader reads its shape (`reads_text`, …, `reads_objectOf`), so looking for a field settles the
part that it is of (`settles_field`).  Checks in sequence settle the parts of both
(`Settles.seq`), which is all that has to be known of a record put together from fields.  What a
field then holds is the value that was found, or the default (`found_of_field`).
-/

import PartialBatch.Batch.Report

namespace PartialBatch

/-! ## Shapes -/

/-- Which values a field may have. -/
inductive Shape
  | any
  | text
  | integer
  | optional (s : Shape)
  | objectOf (s : Shape)
  deriving DecidableEq, Repr

namespace Shape

/-- Whether a field of a shape may have a value. -/
def Admits : Shape → Value → Prop
  | any, _ => True
  | text, v => ∃ t, v = .text t
  | integer, v => ∃ n, v.integer = .ok n
  | optional s, v => v = .null ∨ s.Admits v
  | objectOf s, v => ∃ es, v = .object es ∧ ∀ e ∈ es, s.Admits e.2

/-- Where a value goes wrong that a field of a shape may not have, by the keys that lead there, as
faults tell them. An object goes wrong inside the first of its values that is not admitted. -/
inductive Faulty : Shape → Value → List Text → Prop
  | text {v : Value} (h : ∀ t, v ≠ .text t) : Faulty text v []
  | integer {v : Value} {f : IntegerFault} (h : v.integer = .error f) : Faulty integer v []
  | optional {s : Shape} {v : Value} {place : List Text} (hnull : v ≠ .null)
      (h : Faulty s v place) : Faulty (optional s) v place
  | object {s : Shape} {v : Value} (h : ∀ es, v ≠ .object es) : Faulty (objectOf s) v []
  | inside {s : Shape} (before : Entries) {after : Entries} {key : Text} {v : Value}
      {place : List Text}
      (hbefore : ∀ e ∈ before, s.Admits e.2) (h : Faulty s v place) :
      Faulty (objectOf s) (.object (before ++ (key, v) :: after))
        (FieldReader.toldKey key :: place)

variable {s : Shape} {v : Value} {place : List Text}

/-- What is admitted is not faulty. -/
theorem Faulty.not_admits (h : s.Faulty v place) : ¬s.Admits v := by
  induction h with
  | text h =>
    rintro ⟨t, rfl⟩
    exact h t rfl
  | integer h =>
    rintro ⟨n, hn⟩
    cases h.symm.trans hn
  | optional hnull _ ih => exact fun hadmits => hadmits.elim hnull ih
  | object h =>
    rintro ⟨es, rfl, -⟩
    exact h es rfl
  | inside _ _ _ ih =>
    rintro ⟨es, hes, hall⟩
    obtain rfl := Value.object.inj hes
    exact ih (hall _ (List.mem_append_right _ (List.mem_cons_self ..)))

end Shape

/-! ## Parts of records -/

/-- A part of a record: the key that services write and that of the library, what it is if neither
is there, unless it is required, and which values it may have. -/
structure Part where
  key : Text
  name : Text
  default? : Option Value
  shape : Shape
  deriving DecidableEq, Repr

namespace Part

/-- The value that a record has for a part: under its first key, or else under the second. -/
def value? (p : Part) (es : Entries) : Option Value := (es.get? p.key).or (es.get? p.name)

/-- The key under which a part is found, the first one if it is not. -/
def foundKey (p : Part) (es : Entries) : Text :=
  if (es.get? p.key).isNone ∧ (es.get? p.name).isSome then p.name else p.key

/-- Whether a record is in order as far as a part goes. -/
def Accepts (p : Part) (es : Entries) : Prop :=
  match p.value? es with
  | some v => p.shape.Admits v
  | none => p.default?.isSome

/-- Where a record that is not in order goes wrong at a part: at the key under which the value is
found and inside it, or at the first key if a required part is not there. -/
def Blames (p : Part) (es : Entries) (place : List Text) : Prop :=
  match p.value? es with
  | some v => ∃ inner, p.shape.Faulty v inner ∧ place = p.foundKey es :: inner
  | none => p.default? = none ∧ place = [p.key]

variable {p : Part} {es : Entries} {place : List Text}

theorem Blames.not_accepts (h : p.Blames es place) : ¬p.Accepts es := by
  unfold Blames at h
  unfold Accepts
  cases hv : p.value? es with
  | some v =>
    rw [hv] at h
    obtain ⟨inner, hfaulty, -⟩ := h
    exact hfaulty.not_admits
  | none =>
    rw [hv] at h
    simp [h.1]

end Part

/-! ## Readers -/

variable {α β : Type}

namespace FieldReader

/-- Whether a reader accepts the values of a shape, and finds the fault of any other value. -/
structure Reads (r : FieldReader α) (s : Shape) : Prop where
  accepts : ∀ {place v a}, r place v = .ok a → s.Admits v
  refuses : ∀ {place v faults}, r place v = .error faults →
    ∃ inner, s.Faulty v inner ∧ faults.first.place = place ++ inner

theorem reads_any : any.Reads .any where
  accepts _ := trivial
  refuses h := nomatch h

theorem reads_text : text.Reads .text where
  accepts {place v t} h := by
    cases v with
    | text u => exact ⟨u, rfl⟩
    | _ => cases h
  refuses {place v faults} h := by
    cases v with
    | text u => cases h
    | _ =>
      obtain rfl := Except.error.inj h
      exact ⟨[], .text (fun t h => nomatch h), (List.append_nil _).symm⟩

theorem reads_integer : integer.Reads .integer where
  accepts {place v n} h := by
    unfold integer at h
    cases hv : v.integer with
    | ok n => exact ⟨n, hv⟩
    | error f => simp [hv] at h
  refuses {place v faults} h := by
    unfold integer at h
    cases hv : v.integer with
    | ok n => simp [hv] at h
    | error f =>
      simp only [hv] at h
      obtain rfl := Except.error.inj h
      exact ⟨[], .integer hv, (List.append_nil _).symm⟩

variable {r : FieldReader α} {s : Shape}

theorem Reads.optional (hr : r.Reads s) : r.optional.Reads (.optional s) where
  accepts {place v a} h := by
    unfold FieldReader.optional at h
    split at h
    · exact .inl rfl
    · cases hv : r place v with
      | ok b => exact .inr (hr.accepts hv)
      | error faults => simp [hv, Except.map] at h
  refuses {place v faults} h := by
    unfold FieldReader.optional at h
    split at h
    · cases h
    · rename_i hnull
      cases hv : r place v with
      | ok b => simp [hv, Except.map] at h
      | error faults' =>
        rw [hv] at h
        obtain rfl := Except.error.inj h
        obtain ⟨inner, hfaulty, hplace⟩ := hr.refuses hv
        exact ⟨inner, .optional (fun h => hnull h) hfaulty, hplace⟩

end FieldReader

/-! ## Checks in sequence -/

namespace Checked

variable {f : Checked (α → β)} {x : Checked α} {b : β} {faults : Faults}

theorem seq_eq_ok : seq f x = .ok b ↔ ∃ g a, f = .ok g ∧ x = .ok a ∧ g a = b := by
  cases f <;> cases x <;> simp [seq]

/-- The first fault of two checks is the first one of the first, if there is any. -/
theorem first_of_seq (h : seq f x = .error faults) :
    (∃ gs, f = .error gs ∧ faults.first = gs.first) ∨
      ∃ g, f = .ok g ∧ x = .error faults := by
  cases f with
  | ok g =>
    cases x with
    | ok a => cases h
    | error gs =>
      obtain rfl := Except.error.inj h
      exact .inr ⟨g, rfl, rfl⟩
  | error gs =>
    cases x with
    | ok a =>
      obtain rfl := Except.error.inj h
      exact .inl ⟨gs, rfl, rfl⟩
    | error hs =>
      obtain rfl := Except.error.inj h
      exact .inl ⟨gs, rfl, rfl⟩

/-- Whether a check of a record accepts what its parts accept, and finds the first part that does
not. -/
structure Settles (c : Checked α) (ps : List Part) (es : Entries) : Prop where
  accepts : ∀ {a}, c = .ok a → ∀ p ∈ ps, p.Accepts es
  refuses : ∀ {faults}, c = .error faults → ∃ before p after, ps = before ++ p :: after ∧
    (∀ q ∈ before, q.Accepts es) ∧ p.Blames es faults.first.place

variable {ps qs : List Part} {es : Entries}

theorem settles_pure (a : α) (es : Entries) : Settles (Checked.pure a) [] es where
  accepts _ := List.forall_mem_nil _
  refuses h := nomatch h

/-- **Two checks in sequence settle the parts of both.** -/
theorem Settles.seq (hf : f.Settles ps es) (hx : x.Settles qs es) :
    (Checked.seq f x).Settles (ps ++ qs) es where
  accepts h := by
    obtain ⟨g, a, hg, ha, -⟩ := seq_eq_ok.1 h
    exact List.forall_mem_append.2 ⟨hf.accepts hg, hx.accepts ha⟩
  refuses h := by
    obtain ⟨gs, hgs, hfirst⟩ | ⟨g, hg, hxs⟩ := first_of_seq h
    · obtain ⟨before, p, after, rfl, hbefore, hblames⟩ := hf.refuses hgs
      exact ⟨before, p, after ++ qs, by simp, hbefore, hfirst ▸ hblames⟩
    · obtain ⟨before, p, after, rfl, hbefore, hblames⟩ := hx.refuses hxs
      exact ⟨ps ++ before, p, after, by simp,
        List.forall_mem_append.2 ⟨hf.accepts hg, hbefore⟩, hblames⟩

/-- A check succeeds just for records that all its parts accept. -/
theorem Settles.exists_ok_iff {c : Checked α} (hc : c.Settles ps es) :
    (∃ a, c = .ok a) ↔ ∀ p ∈ ps, p.Accepts es := by
  constructor
  · rintro ⟨a, ha⟩
    exact hc.accepts ha
  · intro hall
    cases h : c with
    | ok a => exact ⟨a, rfl⟩
    | error faults =>
      obtain ⟨before, p, after, rfl, -, hblames⟩ := hc.refuses h
      exact absurd (hall p (by simp)) hblames.not_accepts

end Checked

/-! ## Objects and fields -/

namespace FieldReader

variable {r : FieldReader α} {s : Shape} {es : Entries}

/-- What is read of the entries of an object: all of them, or up to the first that is refused. -/
theorem Reads.entries (hr : r.Reads s) (place : List Text) (es : Entries) :
    (∀ {as}, entries r place es = .ok as → ∀ e ∈ es, s.Admits e.2) ∧
      ∀ {faults}, entries r place es = .error faults → ∃ inner,
        (Shape.objectOf s).Faulty (.object es) inner ∧ faults.first.place = place ++ inner := by
  induction es with
  | nil => exact ⟨fun _ => List.forall_mem_nil _, fun h => nomatch h⟩
  | cons e rest ih =>
    obtain ⟨k, v⟩ := e
    obtain ⟨haccepts, hrefuses⟩ := ih
    constructor
    · intro as h
      obtain ⟨g, bs, hg, hbs, -⟩ := Checked.seq_eq_ok.1 h
      refine List.forall_mem_cons.2 ⟨?_, haccepts hbs⟩
      cases hv : r (place ++ [toldKey k]) v with
      | ok a => exact hr.accepts hv
      | error faults => simp [hv, Except.map] at hg
    · intro faults h
      obtain ⟨gs, hgs, hfirst⟩ | ⟨g, hg, hrest⟩ := Checked.first_of_seq h
      · cases hv : r (place ++ [toldKey k]) v with
        | ok a => simp [hv, Except.map] at hgs
        | error faults' =>
          rw [hv] at hgs
          obtain rfl := Except.error.inj hgs
          obtain ⟨inner, hfaulty, hplace⟩ := hr.refuses hv
          refine ⟨toldKey k :: inner, .inside [] (List.forall_mem_nil _) hfaulty, ?_⟩
          rw [hfirst, hplace, List.append_assoc, List.singleton_append]
      · have hv : s.Admits v := by
          cases hv : r (place ++ [toldKey k]) v with
          | ok a => exact hr.accepts hv
          | error faults' => simp [hv, Except.map] at hg
        obtain ⟨inner, hfaulty, hplace⟩ := hrefuses hrest
        cases hfaulty with
        | object h => exact absurd rfl (h _)
        | @inside _ before after key w inner hbefore hfaulty =>
          exact ⟨_, .inside ((k, v) :: before)
            (List.forall_mem_cons.2 ⟨hv, hbefore⟩) hfaulty, hplace⟩

theorem Reads.objectOf (hr : r.Reads s) : r.objectOf.Reads (.objectOf s) where
  accepts {place v a} h := by
    cases v with
    | object es => exact ⟨es, rfl, (hr.entries place es).1 h⟩
    | _ => cases h
  refuses {place v faults} h := by
    cases v with
    | object es => exact (hr.entries place es).2 h
    | _ =>
      obtain rfl := Except.error.inj h
      exact ⟨[], .object (fun es h => nomatch h), (List.append_nil _).symm⟩

section Fields

variable {key name : Text} {v : Value} {default? : Option α}

/-- A field is read where its value is found. -/
theorem field_of_found (h : (es.get? key).or (es.get? name) = some v) :
    r.field key name default? es =
      r [if (es.get? key).isNone ∧ (es.get? name).isSome then name else key] v := by
  unfold FieldReader.field
  cases hkey : es.get? key with
  | some w =>
    rw [hkey] at h
    obtain rfl := Option.some.inj h
    rfl
  | none =>
    rw [hkey] at h
    have hname : es.get? name = some v := h
    rw [hname]
    rfl

/-- A field whose value is not found has the default, or is missing. -/
theorem field_of_missing (h : (es.get? key).or (es.get? name) = none) :
    r.field key name default? es =
      default?.elim (.error (.single [key] .missing)) .ok := by
  obtain ⟨hkey, hname⟩ := Option.or_eq_none_iff.1 h
  unfold FieldReader.field
  rw [hkey, hname]
  cases default? <;> rfl

end Fields

/-- **Looking for a field settles its part.** -/
theorem Reads.settles_field (p : Part) (hr : r.Reads p.shape) {default? : Option α}
    (hdefault : default?.isSome = p.default?.isSome) :
    (r.field p.key p.name default? es).Settles [p] es := by
  cases hv : p.value? es with
  | some v =>
    have hfield : r.field p.key p.name default? es = r [p.foundKey es] v := field_of_found hv
    rw [hfield]
    refine ⟨fun h => List.forall_mem_singleton.2 ?_, fun {faults} h => ?_⟩
    · rw [Part.Accepts, hv]
      exact hr.accepts h
    · obtain ⟨inner, hfaulty, hplace⟩ := hr.refuses h
      refine ⟨[], p, [], rfl, List.forall_mem_nil _, ?_⟩
      rw [Part.Blames, hv]
      exact ⟨inner, hfaulty, hplace⟩
  | none =>
    rw [field_of_missing hv]
    cases default? with
    | some a =>
      refine ⟨fun _ => List.forall_mem_singleton.2 ?_, fun h => nomatch h⟩
      rw [Part.Accepts, hv]
      exact hdefault.symm
    | none =>
      refine ⟨(fun h => nomatch h), fun h => ⟨[], p, [], rfl, List.forall_mem_nil _, ?_⟩⟩
      obtain rfl := Except.error.inj h
      rw [Part.Blames, hv]
      exact ⟨by simpa using hdefault.symm, rfl⟩

/-! ## What fields hold -/

variable {f : α → Value} {v : Value} {place : List Text} {key name : Text} {a : α}

theorem eq_of_text {t : Text} (h : text place v = .ok t) : v = .text t := by
  cases v with
  | text u => rw [Except.ok.inj h]
  | _ => cases h

theorem eq_of_optional (hr : ∀ {v a}, r place v = .ok a → v = f a) {a? : Option α}
    (h : r.optional place v = .ok a?) : v = a?.elim .null f := by
  unfold FieldReader.optional at h
  split at h
  · obtain rfl := Except.ok.inj h
    rfl
  · cases hv : r place v with
    | ok b =>
      rw [hv] at h
      obtain rfl := Except.ok.inj h
      exact hr hv
    | error faults => simp [hv, Except.map] at h

theorem eq_of_entries (hr : ∀ {place v a}, r place v = .ok a → v = f a) {as : List (Text × α)}
    (h : entries r place es = .ok as) : es = as.map fun e => (e.1, f e.2) := by
  induction es generalizing as with
  | nil =>
    obtain rfl := Except.ok.inj h
    rfl
  | cons e rest ih =>
    obtain ⟨k, v⟩ := e
    obtain ⟨g, bs, hg, hbs, rfl⟩ := Checked.seq_eq_ok.1 h
    cases hv : r (place ++ [toldKey k]) v with
    | ok b =>
      rw [hv] at hg
      obtain rfl := Except.ok.inj hg
      rw [List.map_cons, ← ih hbs, ← hr hv]
    | error faults => simp [hv, Except.map] at hg

theorem eq_of_objectOf (hr : ∀ {place v a}, r place v = .ok a → v = f a) {as : List (Text × α)}
    (h : r.objectOf place v = .ok as) : v = .object (as.map fun e => (e.1, f e.2)) := by
  cases v with
  | object es => rw [eq_of_entries hr h]
  | _ => cases h

/-- What a field holds is the value that was found, or the default. -/
theorem found_of_field (hr : ∀ {place v a}, r place v = .ok a → v = f a) {default? : Option α}
    (h : r.field key name default? es = .ok a) :
    ((es.get? key).or (es.get? name)).or (default?.map f) = some (f a) := by
  cases hv : (es.get? key).or (es.get? name) with
  | some v =>
    rw [field_of_found hv] at h
    rw [hr h]
    rfl
  | none =>
    rw [field_of_missing hv] at h
    cases default? with
    | some b =>
      obtain rfl := Except.ok.inj h
      rfl
    | none => cases h

/-- A field depends on what is under its keys only. -/
theorem field_congr {es' : Entries} (hkey : es.get? key = es'.get? key)
    (hname : es.get? name = es'.get? name) (default? : Option α) :
    r.field key name default? es = r.field key name default? es' := by
  unfold FieldReader.field
  rw [hkey, hname]

end FieldReader

/-! ## Errors that record facts -/

/-- Whether an error is of a class, carries its code, and records facts, also in its details. -/
structure Error.Records (e : Error) (cls : ErrorClass) (code : Text) (facts : Entries) : Prop where
  cls : e.cls = cls
  code : e.code? = some (.text code)
  notes : e.notes = facts
  details : e.details? = some (.object facts)

end PartialBatch
