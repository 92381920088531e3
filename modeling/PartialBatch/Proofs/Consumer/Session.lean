/-
# Invocations one after another

A host keeps what is bound to the log between invocations, and an invocation that ends before its
batch does, or is cut short, leaves its request id bound.  The next one starts by replacing all that
is bound, and from there to its end it leaves that alone:

| part of an invocation | asks |
| --- | --- |
| first | to bind its request id, and nothing else |
| work | calls, and lines of the log, none with a field of that name (`Run.Discreet`) |
| last, if the work comes to an end | to unbind |

That a run is discreet is said function by function, and for what a processor asks itself once and
for all by the names of its fields (`spares_of_isOwn`).  A report is logged with its parts for fields;
their names are fixed, whatever failed.

A line is then made of its entry, of the request id of its own invocation, of the level and of the
time (`Invocation.Writes`).  Nothing is said of when an invocation is cut short: any beginning of a
course will do.
-/

import PartialBatch.Proofs.Batch.Questions
import PartialBatch.Proofs.Consumer.Invocation
import PartialBatch.Proofs.Log.Context

namespace PartialBatch

/-- The key under which the request id is bound. -/
def Consumer.requestKey : Text := "aws_request_id"

/-- Whether a run leaves what is bound as it is, and writes no field of the name of the request id. -/
def Run.Discreet {α : Type} (r : Run α) : Prop := r.AsksIn (Ask.Spares Consumer.requestKey)

open Run.AsksIn

theorem discreet_log {level : Log.Level} {event : Text} {fields : Entries}
    (h : fields.get? Consumer.requestKey = none) : (Run.log level event fields).Discreet := by
  refine question ?_ fun _ => pure
  change Entries.get? (fields.map fun e => (e.1, Log.Field.value e.2)) _ = none
  rw [Entries.get?_map, h]
  rfl

/-- The processor's own lines have no field of that name. -/
theorem spares_of_isOwn {lines : List (Text × Log.Level)} (q : Ask) (h : q.IsOwn lines) :
    q.Spares Consumer.requestKey := by
  cases q with
  | log entry =>
    obtain ⟨level, event, fields, rfl, -, hfields⟩ := h
    change Entries.get? (fields.map fun e => (e.1, Log.Field.value e.2)) _ = none
    rw [Entries.get?_map, Entries.get?_eq_none fun f hf hkey => ?_]
    · rfl
    · exact absurd (hkey ▸ hfields f hf) (by decide)
  | client | request => trivial
  | _ => exact h.elim

/-! ## One invocation -/

namespace Consumer

variable {p : Processor} {env : Environment} {event requestId : Value} {t : List Event}

theorem discreet_processEvent (hhooks : p.hooks = {}) : (p.processEvent event handler).Discreet := by
  refine bind lift fun ms => ?_
  change (Batch.handleAll ⟨handleRecord, .done ()⟩ p.hooks ms >>= p.conclude).Discreet
  rw [hhooks]
  refine bind ?_ fun outcomes => (p.asksIn_conclude outcomes).mono spares_of_isOwn
  have hcallee (m : Message) : ((⟨handleRecord, .done ()⟩ : Callee) m).Discreet :=
    asksIn_handleRecord fun _ => rfl
  exact Batch.asksIn_handleAll spares_of_isOwn hcallee Hooks.askIn_none ms

/-- The parts of a report have names of their own. -/
theorem discreet_processNoted (hhooks : p.hooks = {}) : (processNoted p event).Discreet := by
  refine bind (attempt (discreet_processEvent hhooks)) fun y => ?_
  cases y with
  | ok values => exact pure
  | error e =>
    cases e with
    | report failures values code =>
      refine lift_bind fun entries hentries => bind (discreet_log ?_) fun _ => raise
      obtain ⟨message, -, hparts⟩ := bind_eq_ok.1 hentries
      obtain ⟨each, -, hentries⟩ := bind_eq_ok.1 hparts
      obtain rfl := Except.ok.inj hentries
      rfl
    | _ => exact raise

/-- What an invocation does once the request id is bound, up to where it is unbound. -/
def working (env : Environment) (event : Value) : Run (Except Error (List Value)) := do
  let count ← recordCount event
  Run.log .info "batch_consumer_invoked" [("record_count", .int count)]
  let p ← Processor.make (settings env) {}
  (processNoted p event).attempt

theorem discreet_working : (working env event).Discreet := by
  refine bind lift fun count => bind (discreet_log rfl) fun _ => ?_
  refine lift_bind fun p hp => attempt (discreet_processNoted ?_)
  obtain ⟨triage, -, hp⟩ := bind_eq_ok.1 hp
  obtain rfl := Except.ok.inj hp
  rfl

/-- What an invocation does after that. -/
def returning (result : Except Error (List Value)) : Run Value := do
  let values ← result
  pure (.object [("processed", .int values.length), ("results", .list values)])

/-- **An invocation binds its request id, works, and unbinds it** if the work comes to an end. -/
theorem invoke_eq : invoke env event requestId =
    .ask (.bind [(requestKey, requestId)]) fun _ => working env event >>= fun result =>
      .ask .unbind fun _ => returning result := by
  unfold working
  simp only [Run.bind_assoc]
  rfl

/-- An invocation is discreet between binding its request id and unbinding it, which is the last that
it does. -/
theorem ends_invoke_parts {x : Except Error Value} (h : (invoke env event requestId).Ends t x) :
    ∃ work last, t = ⟨.bind [(requestKey, requestId)], ()⟩ :: (work ++ last) ∧
      (∀ e ∈ work, e.ask.Spares requestKey) ∧ (last = [] ∨ last = [⟨.unbind, ()⟩]) := by
  rw [invoke_eq] at h
  obtain ⟨_, rest, rfl, hrest⟩ := h
  obtain ⟨e, hwork, -⟩ | ⟨work, result, last, hwork, hlast, rfl⟩ := Run.ends_bind.1 hrest
  · exact ⟨rest, [], by rw [List.append_nil]; rfl, discreet_working.of_ends hwork, .inl rfl⟩
  · obtain ⟨_, unbound, rfl, hreturning⟩ := hlast
    have hnil : unbound = [] := by
      cases result with
      | error e => exact (Run.ends_raise.1 hreturning).1
      | ok values => exact (Run.ends_pure.1 hreturning).1
    exact ⟨work, _, rfl, discreet_working.of_ends hwork, .inr (by rw [hnil]; rfl)⟩

/-! ## Invocations one after another -/

/-- An invocation and what happened in it. -/
structure Invocation where
  env : Environment
  event : Value
  /-- The request id of its context; null if the context has none. -/
  requestId : Value
  events : List Event

/-- Whether an invocation can go so: its events are those of a course, or the beginning of them if it
is cut short. -/
def Invocation.IsPossible (i : Invocation) : Prop :=
  ∃ t x, (invoke i.env i.event i.requestId).Ends t x ∧ i.events <+: t

/-- Whether a line is one of an invocation: that of one of its entries, with its request id and with
nothing else that is bound. -/
def Invocation.Writes (i : Invocation) (line : Entries) : Prop :=
  line.get? requestKey = some i.requestId ∧
    ∃ entry time, ⟨.log entry, ()⟩ ∈ i.events ∧
      entry.line [(requestKey, i.requestId)] time = .ok line

/-- What a host shows of invocations, one after another. -/
inductive Session : Host → List Invocation → List (List Sight) → Prop
  | done {h : Host} : Session h [] []
  | next {h h' : Host} {i : Invocation} {is : List Invocation} {seen : List Sight}
      {others : List (List Sight)} (hpossible : i.IsPossible) (hshows : h.Shows i.events h' seen)
      (rest : Session h' is others) : Session h (i :: is) (seen :: others)

/-- What happens in an invocation: nothing, or its request id is bound, it works discreetly, and at
the end the request id may be unbound. -/
theorem Invocation.parts {i : Invocation} (h : i.IsPossible) :
    i.events = [] ∨ ∃ work last,
      i.events = ⟨.bind [(requestKey, i.requestId)], ()⟩ :: (work ++ last) ∧
        (∀ e ∈ work, e.ask.Spares requestKey) ∧ (last = [] ∨ last = [⟨.unbind, ()⟩]) := by
  obtain ⟨t, x, hends, hprefix⟩ := h
  obtain ⟨work, last, rfl, hwork, hlast⟩ := ends_invoke_parts hends
  cases hevents : i.events with
  | nil => exact .inl rfl
  | cons e rest =>
    rw [hevents] at hprefix
    obtain ⟨rfl, hrest⟩ := List.cons_prefix_cons.1 hprefix
    refine .inr ?_
    by_cases hcut : rest <+: work
    · exact ⟨rest, [], by rw [List.append_nil], fun e he => hwork e (hcut.subset he), .inl rfl⟩
    · -- all of the work is done, so what is left is to unbind
      rcases hlast with rfl | rfl
      · rw [List.append_nil] at hrest
        exact absurd hrest hcut
      · rcases List.prefix_concat_iff.1 hrest with rfl | hrest
        · exact ⟨work, _, rfl, hwork, .inr rfl⟩
        · exact absurd hrest hcut

/-- **The lines of an invocation are its own**, whatever the host was left with. -/
theorem Invocation.writes_of_shows {i : Invocation} (hpossible : i.IsPossible) {h h' : Host}
    {seen : List Sight} (hshows : h.Shows i.events h' seen) {line : Entries}
    (hline : .line line ∈ seen) : i.Writes line := by
  obtain hnil | ⟨work, last, hevents, hwork, hlast⟩ := i.parts hpossible
  · rw [hnil] at hshows
    rw [hshows.eq_nil] at hline
    cases hline
  rw [hevents] at hshows
  obtain ⟨time, seen', hrest, rfl⟩ := hshows.of_cons
  obtain ⟨h₁, s₁, s₂, hworked, hended, rfl⟩ := hrest.of_append
  have hnone : s₂ = [] := by
    rcases hlast with rfl | rfl
    · exact hended.eq_nil
    · obtain ⟨time', s₃, hdone, rfl⟩ := hended.of_cons
      exact hdone.eq_nil
  rw [hnone, List.append_nil] at hline
  obtain ⟨entry, time, hmem, hfield, hes⟩ := hworked.line_of_spares hwork hline
  refine ⟨Log.Entry.get?_line hes hfield (by decide), entry, time, ?_, hes⟩
  rw [hevents]
  exact List.mem_cons_of_mem _ (List.mem_append_left _ hmem)

/-- **Invocations do not leak into each other's lines.** Whatever invocations follow one another on a
host, with any events, request ids and answers, and wherever they end or are cut short: every line
that is shown of one of them carries its request id, and is made of nothing else that is bound. -/
theorem no_context_leaked {h : Host} {is : List Invocation} {seens : List (List Sight)}
    (hsession : Session h is seens) :
    List.Forall₂ (fun i seen => ∀ line, Sight.line line ∈ seen → i.Writes line) is seens := by
  induction hsession with
  | done => exact .nil
  | next hpossible hshows _ ih =>
    exact .cons (fun line hline => Invocation.writes_of_shows hpossible hshows hline) ih

end Consumer

namespace Sample

/-- An invocation with an event, under a request id. -/
def invocation (event : Value) (requestId : Text) : Consumer.Invocation where
  env := []
  event := event
  requestId := .text requestId
  events := ((Consumer.invoke [] event (.text requestId)).exec (.service obliging) ()).1

theorem isPossible_invocation (event : Value) (requestId : Text) :
    (invocation event requestId).IsPossible :=
  ⟨_, _, Run.ends_exec (.service obliging) (Consumer.invoke [] event (.text requestId)) (),
    List.prefix_rfl⟩

/-- What lines carry for a request id. -/
def requestIds (seen : List Sight) : List (Option Value) :=
  seen.filterMap fun
    | .line entries => some (entries.get? Consumer.requestKey)
    | _ => none

end Sample

namespace Consumer

/-- Such a session: the first event has no records, so the first request id stays bound; all lines of
the second invocation carry the second. -/
theorem no_context_leaked_sample : ∃ h seen,
    Session (start []) [Sample.invocation .null "1", Sample.invocation Sample.ordersEvent "2"]
      [[], seen] ∧
      ((start []).observeAll [] (Sample.invocation .null "1").events).1 = h ∧
      h.log.context = [(requestKey, .text "1")] ∧
      Sample.requestIds seen = List.replicate 9 (some (.text "2")) ∧
      ∀ line, Sight.line line ∈ seen → (Sample.invocation Sample.ordersEvent "2").Writes line := by
  have hsession : Session (start [])
      [Sample.invocation .null "1", Sample.invocation Sample.ordersEvent "2"] _ :=
    .next (Sample.isPossible_invocation ..) (Host.shows_observeAll [] _ _)
      (.next (Sample.isPossible_invocation ..) (Host.shows_observeAll [] _ _) .done)
  refine ⟨_, _, hsession, rfl, by decide +kernel, by decide +kernel, ?_⟩
  exact (List.forall₂_cons.1 (List.forall₂_cons.1 (no_context_leaked hsession)).2).1

end Consumer
end PartialBatch
