/-
# What lines carry of the context

A line is made of the fields of its entry, of what is bound when it is written, and of the level and
the time. What was bound before has no part in it: binding replaces the whole context. So as long
as nothing is bound or unbound, the lines that a host shows are those of the entries under the one
context (`Shows.line_of_spares`), whatever else happens, and a key that is bound there and that no
entry has a field of is carried by every line with its value (`get?_line`).

| key of a line | value |
| --- | --- |
| a field of the entry | that of the field |
| `event`, `level`, `timestamp`, `exception` | set by the logger |
| any other key that is bound | that which is bound |
-/

import PartialBatch.Proofs.Entries
import PartialBatch.Proofs.Results
import PartialBatch.Run.Host

namespace PartialBatch

/-! ## One line -/

namespace Log

/-- The keys that a logger sets itself, or does not write. -/
def Entry.ownKeys : List Text :=
  [Entry.errorField, "event", "level", "timestamp", "exception"]

variable {entry : Entry} {key time : Text} {v : Value}

/-- What is bound is put behind the fields, and does not replace them. -/
theorem Entry.get?_foldl_bound (context : Entries) (es : Entries Field) :
    Entries.get? (context.foldl (fun (es : Entries Field) e =>
      if (es.get? e.1).isSome then es else es.put e.1 (.value e.2)) es) key =
        (es.get? key).or ((context.get? key).map Field.value) := by
  induction context generalizing es with
  | nil => simp [Entries.get?]
  | cons e rest ih =>
    obtain ⟨k, w⟩ := e
    rw [List.foldl_cons, ih, Entries.get?_cons]
    by_cases hk : k = key
    · subst hk
      rw [if_pos rfl]
      cases hes : es.get? k with
      | none => simp [Entries.get?_put_self]
      | some field => simp [hes]
    · rw [if_neg hk]
      split
      · rfl
      · rw [Entries.get?_put_of_ne hk]

/-- The entries that what is bound is put behind. -/
def Entry.named (entry : Entry) : Entries Field :=
  let fields : Entries Field := entry.fields.filter fun f => f.1 ≠ errorField
  if entry.event = .null then fields else fields.put "event" (.value entry.event)

/-- What is under a key that is not written last is named, or else it is what is bound under it. -/
theorem Entry.get?_assembled_named (context : Entries)
    (hkey : key ∉ [errorField, "level", "timestamp", "exception"]) :
    (entry.assembled context time).get? key =
      (entry.named.get? key).or ((context.get? key).map Field.value) := by
  simp only [List.mem_cons, List.not_mem_nil, or_false, not_or] at hkey
  obtain ⟨herror, hlevel, htime, hexception⟩ := hkey
  have hstamped (es : Entries Field) :
      Entries.get? ((es.put "level" (.value (.text entry.level.name))).put "timestamp"
        (.value (.text time))) key = es.get? key := by
    rw [Entries.get?_put_of_ne (Ne.symm htime), Entries.get?_put_of_ne (Ne.symm hlevel)]
  unfold assembled named
  dsimp only
  split
  · rw [Entries.get?_put_of_ne (Ne.symm hexception), hstamped, get?_foldl_bound,
      Entries.get?_filter_of_ne (Ne.symm herror)]
  · rw [hstamped, get?_foldl_bound, Entries.get?_filter_of_ne (Ne.symm herror)]

/-- What is under a key is the field, or else what is bound under it. -/
theorem Entry.get?_assembled (context : Entries) (hkey : key ∉ ownKeys) :
    (entry.assembled context time).get? key =
      (entry.fields.get? key).or ((context.get? key).map Field.value) := by
  simp only [ownKeys, List.mem_cons, List.not_mem_nil, or_false, not_or] at hkey
  obtain ⟨herror, hevent, hlevel, htime, hexception⟩ := hkey
  have hwritten : Entries.get? (entry.fields.filter fun f => f.1 ≠ errorField) key =
      entry.fields.get? key := Entries.get?_filter_of_ne (Ne.symm herror)
  rw [get?_assembled_named context (by simp [herror, hlevel, htime, hexception]), named]
  split
  · rw [hwritten]
  · rw [Entries.get?_put_of_ne (Ne.symm hevent), hwritten]

/-- An event is under its key, also if something is bound under that. -/
theorem Entry.get?_event_assembled (context : Entries) (hevent : entry.event ≠ .null) :
    (entry.assembled context time).get? "event" = some (.value entry.event) := by
  rw [get?_assembled_named context (by decide), named, if_neg hevent, Entries.get?_put_self,
    Option.some_or]

/-- Writing fields keeps their keys, and adds none. -/
theorem Entry.get?_writtenFields {fields : Entries Field} {es : Entries} {bound : Option Value}
    (h : writtenFields fields = .ok es) (hv : fields.get? key = bound.map Field.value) :
    es.get? key = bound := by
  induction fields generalizing es with
  | nil =>
    obtain rfl := Except.ok.inj h
    cases bound with
    | none => rfl
    | some v => cases hv
  | cons f rest ih =>
    obtain ⟨k, field⟩ := f
    obtain ⟨w, hw, h⟩ := bind_eq_ok.1 h
    obtain ⟨others, hothers, h⟩ := bind_eq_ok.1 h
    obtain rfl := Except.ok.inj h
    rw [Entries.get?_cons] at hv ⊢
    split at hv
    · rename_i hk
      obtain ⟨v, rfl, hfield⟩ := Option.map_eq_some_iff.1 hv.symm
      obtain rfl := hfield.symm
      rw [if_pos hk, Except.ok.inj hw]
    · rename_i hk
      rw [if_neg hk, ih hothers hv]

/-- A line has under a key that its entry has no field of what is bound under it, or nothing. -/
theorem Entry.get?_line_eq {context es : Entries} (h : entry.line context time = .ok es)
    (hfield : entry.fields.get? key = none) (hkey : key ∉ ownKeys) :
    es.get? key = context.get? key :=
  get?_writtenFields h (by rw [get?_assembled context hkey, hfield, Option.none_or])

/-- **A line carries what is bound** under a key that its entry has no field of. -/
theorem Entry.get?_line {es : Entries} (h : entry.line [(key, v)] time = .ok es)
    (hfield : entry.fields.get? key = none) (hkey : key ∉ ownKeys) : es.get? key = some v := by
  rw [get?_line_eq h hfield hkey, Entries.get?_cons, if_pos rfl]

/-- What a logger writes for an entry is its line under what is bound. -/
theorem State.line_of_line? {st : State} {logger : Text} {es : Entries}
    (h : st.line? logger entry time = .ok (some es)) : entry.line st.context time = .ok es := by
  unfold line? at h
  dsimp only at h
  split at h
  · cases h
  split at h
  · split at h
    · cases h
    · obtain ⟨es', hline, h⟩ := bind_eq_ok.1 h
      obtain rfl := Option.some.inj (Except.ok.inj h)
      exact hline
  · cases h

end Log

/-! ## What a host shows -/

namespace Ask

/-- Whether a question leaves what is bound as it is, and writes no field of a name. -/
def Spares (key : Text) : Ask → Prop
  | log entry => entry.fields.get? key = none
  | bind _ => False
  | unbind => False
  | _ => True

end Ask

namespace Host

variable {h h' : Host} {t : List Event} {seen : List Sight} {key : Text}

/-- What a host shows of events, each at a time of its own. -/
inductive Shows : Host → List Event → Host → List Sight → Prop
  | done {h : Host} : Shows h [] h []
  | next {h h' : Host} {time : Text} {e : Event} {t : List Event} {seen : List Sight}
      (rest : Shows (h.observe time e).1 t h' seen) :
      Shows h (e :: t) h' ((h.observe time e).2 ++ seen)

/-- A host can show all events at one time. -/
theorem shows_observeAll (time : Text) (h : Host) (t : List Event) :
    Shows h t (h.observeAll time t).1 (h.observeAll time t).2 := by
  induction t generalizing h with
  | nil => exact .done
  | cons e t ih => exact .next (ih _)

theorem Shows.eq_nil (hshows : Shows h [] h' seen) : seen = [] := by
  cases hshows
  rfl

/-- What is shown of an event and others is shown of it, and of them by the host after it. -/
theorem Shows.of_cons {e : Event} (hshows : Shows h (e :: t) h' seen) :
    ∃ time rest, Shows (h.observe time e).1 t h' rest ∧ seen = (h.observe time e).2 ++ rest := by
  cases hshows with
  | next rest => exact ⟨_, _, rest, rfl⟩

/-- What is shown of two lists of events in sequence is shown of each. -/
theorem Shows.of_append {u : List Event} (hshows : Shows h (t ++ u) h' seen) :
    ∃ h₁ s₁ s₂, Shows h t h₁ s₁ ∧ Shows h₁ u h' s₂ ∧ seen = s₁ ++ s₂ := by
  induction t generalizing h seen with
  | nil => exact ⟨h, [], seen, .done, hshows, rfl⟩
  | cons e t ih =>
    obtain ⟨time, rest, hrest, rfl⟩ := hshows.of_cons
    obtain ⟨h₁, s₁, s₂, hfirst, hsecond, rfl⟩ := ih hrest
    exact ⟨h₁, _, s₂, .next hfirst, hsecond, (List.append_assoc ..).symm⟩

/-- What is bound stays bound as long as nothing is bound or unbound. -/
theorem observe_context {time : Text} {e : Event} (he : e.ask.Spares key) :
    (h.observe time e).1.log.context = h.log.context := by
  obtain ⟨q, answer⟩ := e
  cases q with
  | bind context => exact he.elim
  | unbind => exact he.elim
  | log entry =>
    change (h.log.use logger).context = _
    unfold Log.State.use
    split <;> rfl
  | client =>
    unfold observe
    dsimp only
    split <;> rfl
  | _ => rfl

/-- A line that is shown of an event is that of its entry, under what is bound. -/
theorem line_of_observe {time : Text} {e : Event} {es : Entries}
    (hline : Sight.line es ∈ (h.observe time e).2) :
    ∃ entry, e.ask = .log entry ∧ entry.line h.log.context time = .ok es := by
  obtain ⟨q, answer⟩ := e
  unfold observe at hline
  cases q with
  | log entry =>
    dsimp only at hline
    split at hline
    · rename_i es' hes'
      obtain rfl := Sight.line.inj (List.mem_singleton.1 hline)
      exact ⟨entry, rfl, Log.State.line_of_line? hes'⟩
    · cases hline
  | client =>
    dsimp only at hline
    split at hline
    · cases hline
    · cases List.mem_singleton.1 hline
  | bind | unbind => cases hline
  | _ => cases List.mem_singleton.1 hline

/-- **The lines that are shown of events are those of their entries, under what is bound**, as long
as nothing is bound or unbound. -/
theorem Shows.line_of_spares (hshows : Shows h t h' seen) (ht : ∀ e ∈ t, e.ask.Spares key)
    {es : Entries} (hline : .line es ∈ seen) :
    ∃ entry time, ⟨.log entry, ()⟩ ∈ t ∧ entry.fields.get? key = none ∧
      entry.line h.log.context time = .ok es := by
  induction hshows with
  | done => cases hline
  | @next h h' time e t seen _ ih =>
    obtain ⟨he, ht⟩ := List.forall_mem_cons.1 ht
    rcases List.mem_append.1 hline with hline | hline
    · obtain ⟨entry, hask, hes⟩ := line_of_observe hline
      obtain ⟨q, answer⟩ := e
      obtain rfl : q = .log entry := hask
      exact ⟨entry, time, List.mem_cons_self .., he, hes⟩
    · obtain ⟨entry, time, hmem, hfield, hes⟩ := ih ht hline
      rw [observe_context he] at hes
      exact ⟨entry, time, List.mem_cons_of_mem _ hmem, hfield, hes⟩

end Host
end PartialBatch
