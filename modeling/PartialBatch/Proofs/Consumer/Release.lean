/-
# What an invocation leaves bound

An invocation unbinds its request id when its work comes to an end, in a value or in an error.  Work
in that sense begins with the batch; before it the records are counted, and an event whose records
cannot be counted ends the invocation there, with the request id bound.

| event | ends in | bound afterwards |
| --- | --- | --- |
| object, `Records` absent, text, list or object | what the batch ends in | nothing |
| object, `Records` null, truth value or number | a `TypeError` | the request id |
| any other value | an `AttributeError` | the request id |

Nothing else stands between: a processor can be made from every environment (`exists_make`), and
what the batch raises is kept until the request id is unbound.  What is bound shows in any line that
is written until the next invocation (`released_iff`).
-/

import PartialBatch.Proofs.Batch.Kinds
import PartialBatch.Proofs.Consumer.Session

namespace PartialBatch
namespace Consumer

variable {env : Environment} {event requestId : Value} {t : List Event} {h h' : Host}
  {seen : List Sight}

/-! ## Counting records -/

/-- Whether the records of an event can be counted: it is an object, and what it lists as records,
if anything, is neither null nor a truth value nor a number. -/
def hasCountableRecords (event : Value) : Bool :=
  match event with
  | .object es =>
    match Entries.get? es "Records" with
    | some .null | some (.bool _) | some (.int _) | some (.float _) => false
    | _ => true
  | _ => false

/-- What counting the records of an event ends in, if they cannot be counted. -/
def countFault (event : Value) : Error :=
  match event with
  | .object _ => .unworded .typeError
  | _ => .unworded .attributeError

theorem recordCount_object (es : Entries) : recordCount (.object es) =
    (Message.goThrough ((es.get? "Records").getD (.list []))).map List.length := by
  change Message.goThrough ((es.get? "Records").getD (.list [])) >>= _ = _
  cases Message.goThrough ((es.get? "Records").getD (.list [])) <;> rfl

/-- Records are counted where they can be, and nowhere else. -/
theorem recordCount_cases (event : Value) :
    (hasCountableRecords event = true ∧ ∃ n, recordCount event = .ok n) ∨
      hasCountableRecords event = false ∧ recordCount event = .error (countFault event) := by
  cases event with
  | object es =>
    rw [recordCount_object]
    unfold hasCountableRecords
    cases hrecords : Entries.get? es "Records" with
    | none => exact .inl ⟨by simp only [hrecords], _, rfl⟩
    | some v =>
      cases v with
      | text | bytes | list | object => exact .inl ⟨by simp only [hrecords], _, rfl⟩
      | _ => exact .inr ⟨by simp only [hrecords], rfl⟩
  | _ => exact .inr ⟨rfl, rfl⟩

theorem recordCount_of_countable (h : hasCountableRecords event = true) :
    ∃ n, recordCount event = .ok n := by
  obtain ⟨-, hn⟩ | ⟨hnot, -⟩ := recordCount_cases event
  · exact hn
  · exact absurd h (by simp [hnot])

theorem recordCount_of_not_countable (h : hasCountableRecords event = false) :
    recordCount event = .error (countFault event) := by
  obtain ⟨hcount, -⟩ | ⟨-, hfault⟩ := recordCount_cases event
  · exact absurd h (by simp [hcount])
  · exact hfault

/-! ## Parts of an invocation -/

/-- A processor can be made from every environment, with the triage for its kinds. -/
theorem exists_make (env : Environment) : ∃ triage,
    Triage.ofKinds (settings env).kinds = .ok triage ∧
      Processor.make (settings env) {} = .ok ⟨settings env, triage, {}⟩ := by
  have hkinds : ∀ kind ∈ (settings env).kinds, kind.isUsable = true := by
    simp [settings, Settings.ofEnvironment, Kind.isUsable]
  obtain ⟨triage, htriage⟩ := Triage.exists_ofKinds_iff.2 hkinds
  exact ⟨triage, htriage, by rw [Processor.make, htriage]; rfl⟩

/-- If the records can be counted, the work ends in what the batch ended in, as a value. -/
theorem exists_result_of_working (hcount : hasCountableRecords event = true)
    {x : Except Error (Except Error (List Value))} (hends : (working env event).Ends t x) :
    ∃ result, x = .ok result := by
  obtain ⟨n, hn⟩ := recordCount_of_countable hcount
  obtain ⟨triage, -, hp⟩ := exists_make env
  unfold working at hends
  obtain ⟨e, he, -⟩ | ⟨count, -, hcounted⟩ := Run.ends_lift_bind.1 hends
  · cases hn.symm.trans he
  obtain ⟨logged, rfl, hlogged⟩ := Run.ends_log_bind.1 hcounted
  obtain ⟨e, he, -⟩ | ⟨q, -, hmade⟩ := Run.ends_lift_bind.1 hlogged
  · cases hp.symm.trans he
  obtain ⟨result, -, hresult⟩ := Run.ends_attempt.1 hmade
  exact ⟨result, hresult⟩

/-- **If the records can be counted, the last that an invocation does is to unbind.** -/
theorem unbinds_last (hcount : hasCountableRecords event = true) {x : Except Error Value}
    (hends : (invoke env event requestId).Ends t x) : ∃ work, t = work ++ [⟨.unbind, ()⟩] := by
  rw [invoke_eq] at hends
  obtain ⟨_, rest, rfl, hrest⟩ := hends
  obtain ⟨e, hwork, -⟩ | ⟨work, result, last, hwork, hlast, rfl⟩ := Run.ends_bind.1 hrest
  · obtain ⟨result, hresult⟩ := exists_result_of_working hcount hwork
    cases hresult
  · obtain ⟨_, unbound, rfl, hreturning⟩ := hlast
    have hnil : unbound = [] := by
      cases result with
      | error e => exact (Run.ends_raise.1 hreturning).1
      | ok values => exact (Run.ends_pure.1 hreturning).1
    rw [hnil]
    exact ⟨_ :: work, rfl⟩

/-- If they cannot be counted, it binds its request id and nothing else. -/
theorem binds_only (hcount : hasCountableRecords event = false) {x : Except Error Value}
    (hends : (invoke env event requestId).Ends t x) :
    t = [⟨.bind [(requestKey, requestId)], ()⟩] ∧ x = .error (countFault event) := by
  obtain ⟨_, rest, rfl, hrest⟩ := hends
  rw [recordCount_of_not_countable hcount] at hrest
  obtain ⟨rfl, rfl⟩ := Run.ends_raise.1 hrest
  exact ⟨rfl, rfl⟩

/-! ## The host afterwards -/

/-- **An invocation releases its request id if and only if its records can be counted.** Whatever
was bound on the host, whatever the surroundings answer and whatever the invocation ends in: if they
can be, nothing is bound afterwards, and a line of an entry without a field of that name has no
request id. If they cannot, the invocation ends in the error of the count, its request id stays
bound, and any such line carries it. -/
theorem released_iff {x : Except Error Value} (hends : (invoke env event requestId).Ends t x)
    (hshows : h.Shows t h' seen) :
    (h'.log.context = [] ↔ hasCountableRecords event = true) ∧
      (hasCountableRecords event = false →
        h'.log.context = [(requestKey, requestId)] ∧ x = .error (countFault event)) ∧
      ∀ logger entry time line, h'.log.line? logger entry time = .ok (some line) →
        entry.fields.get? requestKey = none →
        line.get? requestKey = if hasCountableRecords event then none else some requestId := by
  have hcarried {context : Entries} (hcontext : h'.log.context = context) {logger : Text}
      {entry : Log.Entry} {time : Text} {line : Entries}
      (hline : h'.log.line? logger entry time = .ok (some line))
      (hfield : entry.fields.get? requestKey = none) :
      line.get? requestKey = context.get? requestKey :=
    Log.Entry.get?_line_eq (hcontext ▸ Log.State.line_of_line? hline) hfield (by decide)
  cases hcount : hasCountableRecords event with
  | true =>
    have hnone : h'.log.context = [] := by
      obtain ⟨work, rfl⟩ := unbinds_last hcount hends
      obtain ⟨h₁, s₁, s₂, -, hlast, rfl⟩ := hshows.of_append
      obtain ⟨time, rest, hdone, -⟩ := hlast.of_cons
      cases hdone
      rfl
    refine ⟨by simp [hnone], fun h => Bool.noConfusion h, fun _ _ _ _ hline hfield => ?_⟩
    exact hcarried hnone hline hfield
  | false =>
    obtain ⟨rfl, hx⟩ := binds_only hcount hends
    have hbound : h'.log.context = [(requestKey, requestId)] := by
      obtain ⟨time, rest, hdone, -⟩ := hshows.of_cons
      cases hdone
      rfl
    refine ⟨by simp [hbound], fun _ => ⟨hbound, hx⟩, fun _ _ _ _ hline hfield => ?_⟩
    rw [hcarried hbound hline hfield, Entries.get?_cons, if_pos rfl]
    rfl

end Consumer

namespace Sample

/-- An event whose records are null. -/
def nullRecords : Value := .object [("Records", .null)]

/-- An event whose records are the two code points of a text, which are no messages. -/
def textRecords : Value := .object [("Records", .text "ab")]

/-- The host after an invocation with an event, under the request id `r1`. -/
def hostAfter (event : Value) : Host :=
  ((Consumer.start []).observeAll "now" (invocation event "r1").events).1

/-- An entry that is written outside any invocation. -/
def outside : Log.Entry := .ofValues .info "outside" []

end Sample

namespace Consumer

/-- An invocation that ends in an error for its first record, after which a line has no request
id. -/
theorem released_iff_sample : ∃ t x seen line,
    (invoke [] Sample.textRecords (.text "r1")).Ends t x ∧
      (start []).Shows t (Sample.hostAfter Sample.textRecords) seen ∧
      (Sample.hostAfter Sample.textRecords).log.line? Host.logger Sample.outside "now" =
        .ok (some line) ∧
      Sample.outside.fields.get? requestKey = none ∧
      (Sample.hostAfter Sample.textRecords).log.context = [] ∧ line.get? requestKey = none := by
  have hends := Run.ends_exec (.service Sample.obliging)
    (invoke [] Sample.textRecords (.text "r1")) ()
  have hshows : (start []).Shows _ (Sample.hostAfter Sample.textRecords) _ :=
    Host.shows_observeAll "now" (start []) (Sample.invocation Sample.textRecords "r1").events
  have hcount : hasCountableRecords Sample.textRecords = true := by decide
  have hline : (Sample.hostAfter Sample.textRecords).log.line? Host.logger Sample.outside "now" =
      .ok (some _) := rfl
  obtain ⟨hreleased, -, hlines⟩ := released_iff hends hshows
  exact ⟨_, _, _, _, hends, hshows, hline, rfl, hreleased.2 hcount, hlines _ _ _ _ hline rfl⟩

/-- **Not every invocation releases its request id**: one with null for records leaves it bound, and
a line that is written afterwards, outside any invocation, carries it. -/
theorem not_released : ∃ t x seen line,
    (invoke [] Sample.nullRecords (.text "r1")).Ends t x ∧
      (start []).Shows t (Sample.hostAfter Sample.nullRecords) seen ∧
      (Sample.hostAfter Sample.nullRecords).log.context ≠ [] ∧
      (Sample.hostAfter Sample.nullRecords).log.line? Host.logger Sample.outside "now" =
        .ok (some line) ∧
      line.get? requestKey = some (.text "r1") :=
  ⟨_, _, _, _, Run.ends_exec (.service Sample.obliging) _ (),
    Host.shows_observeAll "now" (start []) (Sample.invocation Sample.nullRecords "r1").events,
    by decide, rfl, rfl⟩

end Consumer
end PartialBatch
