/-
# Which entries become lines

Not all that is noted is seen: an entry may be below the level, may be refused for the name of a
field, or may have an error without a text.  A plain entry, with values under names that a logger
leaves alone, is written if its level is (`State.exists_line?`), and its line says what the entry
does, whatever is bound.  So if all entries about an event are plain, the lines about it are all of
them, in order (`Host.Shows.told_eq`), and an account that is kept in entries can be read off the
log.

| what there is | of events | of what is seen |
| --- | --- | --- |
| about an event | `notes` | `linesOf` |
| under a key of these | `said` | `told` |
-/

import PartialBatch.Proofs.Log.Context

namespace PartialBatch

/-- Different strings are different texts. -/
theorem Text.ofString_inj {s t : String} : ofString s = ofString t ↔ s = t := by
  have hinj : Function.Injective CodePoint.scalar := fun _ _ => CodePoint.scalar.inj
  rw [ofString, ofString, (List.map_injective_iff.2 hinj).eq_iff, String.toList_inj]

namespace Log

variable {entry : Entry} {key time event : Text} {context : Entries}

/-! ## Plain entries -/

/-- The names of fields that a logger refuses, or does not write as they are. -/
def Entry.reserved : List Text := "self" :: "method_name" :: ownKeys

/-- Whether an entry has values for fields, none under a reserved name, and the level of a line that
is written when `info` is. -/
inductive Entry.Plain : Entry → Prop
  | intro {level : Level} {event : Text} {fields : Entries} (hlevel : level.reaches .info = true)
      (hfields : ∀ f ∈ fields, f.1 ∉ reserved) : Plain (.ofValues level event fields)

/-- The value that is under a key of an entry. -/
def Entry.value? (entry : Entry) (key : Text) : Option Value :=
  match entry.fields.get? key with
  | some (.value v) => some v
  | _ => none

theorem Entry.get?_of_value? {v : Value} (h : entry.value? key = some v) :
    entry.fields.get? key = some (.value v) := by
  unfold value? at h
  split at h
  · rename_i w hw
    rw [hw, Option.some.inj h]
  · cases h

@[simp] theorem Entry.value?_ofValues {level : Level} {fields : Entries} :
    (ofValues level event fields).value? key = fields.get? key := by
  rw [value?, ofValues, Entries.get?_map]
  cases fields.get? key <;> rfl

theorem Entry.exists_writtenFields {fields : Entries Field}
    (h : ∀ f ∈ fields, ∃ v, f.2 = .value v) : ∃ es, writtenFields fields = .ok es := by
  induction fields with
  | nil => exact ⟨[], rfl⟩
  | cons f rest ih =>
    obtain ⟨k, field⟩ := f
    obtain ⟨⟨v, rfl⟩, hrest⟩ := List.forall_mem_cons.1 h
    obtain ⟨es, hes⟩ := ih hrest
    refine ⟨(k, v) :: es, ?_⟩
    rw [writtenFields, hes]
    rfl

/-- An entry with values for fields has a line. -/
theorem Entry.exists_line (h : ∀ f ∈ entry.fields, ∃ v, f.2 = .value v) :
    ∃ es, entry.line context time = .ok es := by
  refine exists_writtenFields ?_
  have hput {es : Entries Field} (key : Text) (v : Value) (hes : ∀ f ∈ es, ∃ v, f.2 = .value v) :
      ∀ f ∈ es.put key (.value v), ∃ v, f.2 = .value v :=
    Entries.forall_put (P := fun field : Field => ∃ v, field = .value v) hes ⟨v, rfl⟩
  have hbound (bound : Entries) : ∀ {es : Entries Field}, (∀ f ∈ es, ∃ v, f.2 = .value v) →
      ∀ f ∈ bound.foldl (fun (es : Entries Field) e =>
        if (es.get? e.1).isSome then es else es.put e.1 (.value e.2)) es, ∃ v, f.2 = .value v := by
    induction bound with
    | nil => exact fun hes => hes
    | cons e rest ih =>
      intro es hes
      refine ih ?_
      dsimp only
      split
      · exact hes
      · exact hput _ _ hes
  have hnamed : ∀ f ∈ entry.named, ∃ v, f.2 = .value v := by
    have hkept : ∀ f ∈ entry.fields.filter (fun f => f.1 ≠ errorField), ∃ v, f.2 = .value v :=
      fun f hf => h f (List.mem_filter.1 hf).1
    unfold named
    dsimp only
    split
    · exact hkept
    · exact hput _ _ hkept
  have hstamped := hput "timestamp" (.text time)
    (hput "level" (.text entry.level.name)
      (hbound (context.filter fun e => e.1 ≠ errorField) hnamed))
  unfold assembled
  dsimp only
  split
  · exact hput _ _ hstamped
  · exact hstamped

/-- The line of an entry that is about something says about what. -/
theorem Entry.get?_event_line {es : Entries} (h : entry.line context time = .ok es)
    (hevent : entry.event ≠ .null) : es.get? "event" = some entry.event :=
  get?_writtenFields h <| by
    rw [get?_event_assembled context hevent]
    rfl

/-- The line of an entry has its values. -/
theorem Entry.get?_value_line {es : Entries} {v : Value} (h : entry.line context time = .ok es)
    (hkey : key ∉ ownKeys) (hv : entry.value? key = some v) : es.get? key = some v := by
  refine get?_writtenFields h ?_
  rw [get?_assembled context hkey, get?_of_value? hv, Option.some_or]
  rfl

/-- **A plain entry becomes a line**, if lines of level `info` do. -/
theorem State.exists_line? {st : State} {logger : Text} (time : Text) (hplain : entry.Plain)
    (hlevel : Level.info.reaches (st.levelOf logger) = true) :
    ∃ es, st.line? logger entry time = .ok (some es) ∧ entry.line st.context time = .ok es := by
  obtain @⟨level, event, fields, hreaches, hfields⟩ := hplain
  have hvalues : ∀ f ∈ (Entry.ofValues level event fields).fields, ∃ v, f.2 = .value v := by
    intro f hf
    obtain ⟨e, -, rfl⟩ := List.mem_map.1 hf
    exact ⟨e.2, rfl⟩
  have hnone (name : Text) (hname : name ∈ Entry.reserved) :
      (Entry.ofValues level event fields).fields.get? name = none := by
    refine Entries.get?_eq_none fun f hf heq => ?_
    obtain ⟨e, he, rfl⟩ := List.mem_map.1 hf
    exact hfields e he (heq ▸ hname)
  have hwritten : (Entry.ofValues level event fields).level.reaches (st.levelOf logger) = true := by
    change level.reaches (st.levelOf logger) = true
    simp only [Level.reaches, decide_eq_true_eq] at hlevel hreaches ⊢
    exact Nat.le_trans hlevel hreaches
  obtain ⟨es, hes⟩ := Entry.exists_line hvalues
  refine ⟨es, ?_, hes⟩
  unfold line?
  rw [if_neg (by simp [hnone "event" (by decide), hnone "self" (by decide)]), if_pos hwritten,
    if_neg (by simp [hnone "method_name" (by decide)]), hes]
  rfl

/-- Using a logger leaves the levels of all loggers as they are. -/
theorem State.levelOf_use {st : State} {logger other : Text} :
    (st.use logger).levelOf other = st.levelOf other := by
  unfold use
  split
  · rfl
  · rename_i h
    by_cases hother : other = logger
    · subst hother
      rw [Option.not_isSome_iff_eq_none] at h
      simp [levelOf, h]
    · have hbeq : (other == logger) = false := by simpa using hother
      simp only [levelOf, List.lookup_cons, hbeq]

/-! ## What is said, and what is seen -/

/-- The entry about an event that is given to a logger, if that is what happens. -/
def note? (event : Text) (e : Event) : Option Entry :=
  match e.ask with
  | .log entry => if entry.event = .text event then some entry else none
  | _ => none

/-- The entries about an event. -/
def notes (event : Text) (t : List Event) : List Entry := t.filterMap (note? event)

/-- What the entries about an event have under a key. -/
def said (event key : Text) (t : List Event) : List (Option Value) :=
  (notes event t).map (·.value? key)

/-- The line about an event that is seen, if it is one. -/
def line? (event : Text) : Sight → Option Entries
  | .line es => if es.get? "event" = some (.text event) then some es else none
  | _ => none

/-- The lines about an event. -/
def linesOf (event : Text) (seen : List Sight) : List Entries := seen.filterMap (line? event)

/-- What the lines about an event tell under a key. -/
def told (event key : Text) (seen : List Sight) : List (Option Value) :=
  (linesOf event seen).map (·.get? key)

section Lists

variable {t u : List Event} {seen others : List Sight}

@[simp] theorem notes_append : notes event (t ++ u) = notes event t ++ notes event u :=
  List.filterMap_append

@[simp] theorem said_append : said event key (t ++ u) = said event key t ++ said event key u := by
  rw [said, notes_append, List.map_append, said, said]

/-- What an entry of values says. -/
theorem said_ofValues {level : Level} {other : Text} {fields : Entries} :
    said event key [⟨.log (.ofValues level other fields), ()⟩] =
      if other = event then [fields.get? key] else [] := by
  have hnotes : notes event [⟨.log (.ofValues level other fields), ()⟩] =
      if other = event then [.ofValues level other fields] else [] := by
    by_cases h : other = event <;> simp [notes, note?, Entry.ofValues, h]
  rw [said, hnotes]
  split
  · rw [List.map_singleton, Entry.value?_ofValues]
  · rfl

@[simp] theorem linesOf_append :
    linesOf event (seen ++ others) = linesOf event seen ++ linesOf event others :=
  List.filterMap_append

@[simp] theorem told_append :
    told event key (seen ++ others) = told event key seen ++ told event key others := by
  rw [told, linesOf_append, List.map_append, told, told]

end Lists

end Log

/-- Whether a question can be about an event only with a plain entry. -/
def Ask.Plain (event : Text) : Ask → Prop
  | log entry => entry.event ≠ .null ∧ (entry.event = .text event → entry.Plain)
  | _ => True

/-- Whether a question cannot be about an event. -/
def Ask.Avoids (event : Text) : Ask → Prop
  | log entry => entry.event ≠ .null ∧ entry.event ≠ .text event
  | _ => True

namespace Host

open Log

variable {h h' : Host} {t : List Event} {seen : List Sight} {event key time : Text} {e : Event}

/-- Whatever happens, the levels of the loggers stay as they are. -/
theorem levelOf_observe (logger : Text) :
    (h.observe time e).1.log.levelOf logger = h.log.levelOf logger := by
  obtain ⟨q, answer⟩ := e
  cases q with
  | log entry => exact State.levelOf_use
  | client =>
    unfold observe
    dsimp only
    split <;> rfl
  | _ => rfl

/-- What is seen of a plain entry is its line. -/
theorem observe_of_plain {entry : Entry} (time : Text) (e : Event) (hask : e.ask = .log entry)
    (hplain : entry.Plain) (hlevel : Level.info.reaches (h.log.levelOf logger) = true) :
    ∃ es, (h.observe time e).2 = [.line es] ∧ es.get? "event" = some entry.event ∧
      ∀ key v, key ∉ Entry.ownKeys → entry.value? key = some v → es.get? key = some v := by
  obtain ⟨q, answer⟩ := e
  obtain rfl : q = .log entry := hask
  obtain ⟨es, hes, hline⟩ := State.exists_line? time hplain hlevel
  refine ⟨es, ?_, ?_, fun key v hkey hv => Entry.get?_value_line hline hkey hv⟩
  · unfold observe
    simp only [hes]
  · refine Entry.get?_event_line hline ?_
    cases hplain
    exact Value.noConfusion

/-- Nothing is seen about an event of what cannot be about it. -/
theorem linesOf_observe (havoids : e.ask.Avoids event) :
    linesOf event (h.observe time e).2 = [] := by
  obtain ⟨q, answer⟩ := e
  cases q with
  | log entry =>
    obtain ⟨hnull, hother⟩ := havoids
    refine List.filterMap_eq_nil_iff.2 fun sight hsight => ?_
    cases sight with
    | line es =>
      obtain ⟨entry', hask, hes⟩ := line_of_observe hsight
      obtain rfl := Ask.log.inj hask
      refine if_neg ?_
      rw [Entry.get?_event_line hes hnull]
      exact fun heq => hother (Option.some.inj heq)
    | _ => rfl
  | client =>
    unfold observe
    dsimp only
    split <;> rfl
  | _ => rfl

/-- Nothing is seen about an event of events that cannot be about it. -/
theorem Shows.linesOf_eq_nil (hshows : Shows h t h' seen)
    (havoids : ∀ e ∈ t, e.ask.Avoids event) : linesOf event seen = [] := by
  induction hshows with
  | done => rfl
  | next _ ih =>
    obtain ⟨he, ht⟩ := List.forall_mem_cons.1 havoids
    rw [linesOf_append, linesOf_observe he, ih ht]
    rfl

/-- What is seen of one event tells what is said there. -/
theorem told_observe (hlevel : Level.info.reaches (h.log.levelOf logger) = true)
    (hplain : e.ask.Plain event) (hkey : key ∉ Entry.ownKeys) (hnone : none ∉ said event key [e]) :
    told event key (h.observe time e).2 = said event key [e] := by
  obtain ⟨q, answer⟩ := e
  cases q with
  | log entry =>
    obtain ⟨hnull, hplain⟩ := hplain
    by_cases habout : entry.event = .text event
    · have hsaid : said event key [⟨.log entry, answer⟩] = [entry.value? key] := by
        simp [said, notes, note?, habout]
      rw [hsaid, List.mem_singleton] at hnone
      obtain ⟨v, hv⟩ := Option.ne_none_iff_exists'.1 (Ne.symm hnone)
      obtain ⟨es, hes, hev, hvalues⟩ := observe_of_plain time ⟨.log entry, answer⟩ rfl
        (hplain habout) hlevel
      rw [hsaid, hes, hv]
      simp [told, linesOf, line?, hev, habout, hvalues key v hkey hv]
    · have hsaid : said event key [⟨.log entry, answer⟩] = [] := by
        simp [said, notes, note?, habout]
      rw [hsaid, told, linesOf_observe (e := ⟨.log entry, answer⟩) ⟨hnull, habout⟩,
        List.map_nil]
  | client =>
    unfold observe
    dsimp only
    split <;> rfl
  | _ => rfl

/-- **What is seen of events tells what is said there**, if all entries that can be about the event
are plain. -/
theorem Shows.told_eq (hshows : Shows h t h' seen)
    (hlevel : Level.info.reaches (h.log.levelOf logger) = true)
    (hplain : ∀ e ∈ t, e.ask.Plain event) (hkey : key ∉ Entry.ownKeys)
    (hnone : none ∉ said event key t) : told event key seen = said event key t := by
  induction hshows with
  | done => rfl
  | @next h h' time e t seen _ ih =>
    obtain ⟨he, ht⟩ := List.forall_mem_cons.1 hplain
    rw [← List.singleton_append, said_append, List.mem_append, not_or] at hnone
    rw [← List.singleton_append (l := t), told_append, said_append,
      told_observe hlevel he hkey hnone.1, ih (by rwa [levelOf_observe]) ht hnone.2]

/-- The levels of the loggers are the same after events. -/
theorem Shows.levelOf_eq (hshows : Shows h t h' seen) (logger : Text) :
    h'.log.levelOf logger = h.log.levelOf logger := by
  induction hshows with
  | done => rfl
  | next _ ih => rw [ih, levelOf_observe]

end Host
end PartialBatch
