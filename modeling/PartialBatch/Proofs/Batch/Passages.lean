/-
# Passages

A passage is what one message of a batch goes through: the turn of the handler, the turn of the
success hook if the handler returned, and the turn of the failure hook if either raised. It
records what is shown of them; whether a handler and hooks can show it is `Passage.Of`.

| part | events |
| --- | --- |
| `handled` | those of the handler |
| `succeeded` | those of the success hook, directly after |
| failure line | one, if either raised |
| `failed` | those of the failure hook |
| hook line | one, if the failure hook raised |

An error is noted before anything else happens (`noted`). It may be one that a consumer does not
answer for, or have no text, and then another error comes out of the passage, in the place of an
outcome (`Passage.verdict`). The passages of a batch follow the messages up to that place
(`Passages`, `passages_of_handleAll`).
-/

import PartialBatch.Consumer
import PartialBatch.Proofs.Batch.Stages
import Mathlib.Data.List.Basic

namespace PartialBatch

/-- What a call to a handler or a hook shows: its events, and what it ended in. -/
structure Turn (α : Type) where
  events : List Event
  result : Except Error α

/-- The error that a turn ended in, if it did. -/
def Turn.error? {α : Type} (turn : Turn α) : Option Error :=
  match turn.result with
  | .ok _ => none
  | .error e => some e

namespace Batch

/-- Whether a hook had its turn: it is called if it is there and there is something to call it
on, and otherwise it is not. -/
inductive Called {α : Type} : Option (α → Run Unit) → Option α → Option (Turn Unit) → Prop
  | absent {x : Option α} : Called none x none
  | idle {hook : α → Run Unit} : Called (some hook) none none
  | called {hook : α → Run Unit} {a : α} {turn : Turn Unit}
      (h : (hook a).Ends turn.events turn.result) : Called (some hook) (some a) (some turn)

/-- The text under which an error is noted, or the error that is raised in place of noting it. -/
def noted (e : Error) : Except Error Text := if e.isException then e.text else .error e

/-- The line that notes a failure. -/
def failureLine (m : Message) (e : Error) (t : Text) : Event :=
  ⟨.log (.ofValues .error "message_processing_failed" [("message_id", .text m.id),
    ("error_type", .text e.cls.name), ("error", .text t)]), ()⟩

/-- The line that notes an error of the failure hook. -/
def hookLine (m : Message) (t : Text) : Event :=
  ⟨.log (.ofValues .warning "failure_hook_failed" [("message_id", .text m.id),
    ("error", .text t)]), ()⟩

/-- What a message goes through. -/
structure Passage where
  message : Message
  handled : Turn Value
  succeeded : Option (Turn Unit)
  failed : Option (Turn Unit)

namespace Passage

/-- The value that the handler returned, or the error that it or the success hook raised. -/
def produced (s : Passage) : Except Error Value :=
  match s.handled.result, s.succeeded.bind Turn.error? with
  | .ok _, some e => .error e
  | result, _ => result

/-- The error that the failure hook is to be called on, if there is one. -/
def notified (s : Passage) : Option Error :=
  match s.produced with
  | .ok _ => none
  | .error e => (noted e).toOption.map fun _ => e

/-- What was raised on the way, in order. -/
def raised (s : Passage) : List Error :=
  s.handled.error?.toList ++ (s.succeeded.bind Turn.error?).toList ++
    (s.failed.bind Turn.error?).toList

/-- What the notice of the failure hook ends in; there is none if it did not raise. -/
def hookNoted (s : Passage) : Option (Except Error Text) :=
  (s.failed.bind Turn.error?).map noted

/-- The events once a failure was noted. -/
def aftermath (s : Passage) : List Event :=
  (s.failed.map Turn.events).getD [] ++
    match s.hookNoted with
    | some (.ok t) => [hookLine s.message t]
    | _ => []

/-- The events of a passage. -/
def events (s : Passage) : List Event :=
  s.handled.events ++ (s.succeeded.map Turn.events).getD [] ++
    match s.produced with
    | .ok _ => []
    | .error e => match noted e with
      | .ok t => failureLine s.message e t :: s.aftermath
      | .error _ => []

/-- What notifying the failure hook ends in. -/
def hookEnd (s : Passage) : Except Error Unit :=
  match s.hookNoted with
  | some (.error e) => .error e
  | _ => .ok ()

/-- The outcome of a message, or the error that came out of its passage. -/
def verdict (s : Passage) : Except Error Outcome :=
  match s.produced with
  | .ok v => .ok (.success v)
  | .error e => match noted e with
    | .ok _ => s.hookEnd.map fun _ => .failure e
    | .error e' => .error e'

/-- Whether a handler and hooks can show a passage. -/
structure Of (callee : Callee) (hooks : Hooks) (s : Passage) : Prop where
  handled : (callee s.message).Ends s.handled.events s.handled.result
  succeeded : Called (hooks.succeeded.map (· s.message)) s.handled.result.toOption s.succeeded
  failed : Called (hooks.failed.map (· s.message)) s.notified s.failed

end Passage

variable {callee : Callee} {hooks : Hooks} {m : Message} {t : List Event}

/-! ## Courses of one message -/

/-- A guarded run ends in a value, or in an error that is answered for; it is cut short by any
other error. -/
theorem ends_guarded {α : Type} {r : Run α} {x : Except Error (Except Error α)}
    (h : (guarded r).Ends t x) :
    (∃ y, r.Ends t y ∧ x = .ok y ∧ ∀ e, y = .error e → e.isException = true) ∨
      ∃ e, r.Ends t (.error e) ∧ x = .error e ∧ e.isException = false := by
  unfold guarded at h
  obtain ⟨t₁, y, t₂, hy, h₂, rfl⟩ := Run.ends_attempt_bind.1 h
  cases y with
  | ok a =>
    obtain ⟨rfl, rfl⟩ := Run.ends_pure.1 h₂
    exact .inl ⟨.ok a, by rwa [List.append_nil], rfl, by simp⟩
  | error e =>
    cases hexc : e.isException with
    | true =>
      simp only [hexc, if_true] at h₂
      obtain ⟨rfl, rfl⟩ := Run.ends_pure.1 h₂
      refine .inl ⟨.error e, by rwa [List.append_nil], rfl, fun f hf => ?_⟩
      rwa [← Except.error.inj hf]
    | false =>
      simp only [hexc, Bool.false_eq_true, if_false] at h₂
      obtain ⟨rfl, rfl⟩ := Run.ends_raise.1 h₂
      exact .inr ⟨e, by rwa [List.append_nil], rfl, hexc⟩

/-- A value is produced by the turns of the handler and of the success hook. -/
theorem turns_of_produce {x : Except Error Value} (h : (produce callee hooks m).Ends t x) :
    ∃ handled succeeded, (callee m).Ends handled.events handled.result ∧
      Called (hooks.succeeded.map (· m)) handled.result.toOption succeeded ∧
      t = handled.events ++ (succeeded.map Turn.events).getD [] ∧
      x = Passage.produced ⟨m, handled, succeeded, none⟩ := by
  unfold produce at h
  obtain ⟨e, he, rfl⟩ | ⟨t₁, v, t₂, h₁, h₂, rfl⟩ := Run.ends_bind.1 h
  · refine ⟨⟨t, .error e⟩, none, he, ?_, by simp, rfl⟩
    cases hooks.succeeded with
    | none => exact .absent
    | some hook => exact .idle
  cases hhook : hooks.succeeded with
  | none =>
    rw [hhook] at h₂
    obtain ⟨rfl, rfl⟩ : t₂ = [] ∧ x = .ok v := h₂
    exact ⟨⟨t₁, .ok v⟩, none, h₁, .absent, rfl, rfl⟩
  | some hook =>
    rw [hhook] at h₂
    obtain ⟨e, he, rfl⟩ | ⟨t₃, _, t₄, h₃, h₄, rfl⟩ := Run.ends_bind.1 h₂
    · exact ⟨⟨t₁, .ok v⟩, some ⟨t₂, .error e⟩, h₁, .called he, rfl, rfl⟩
    · obtain ⟨rfl, rfl⟩ := Run.ends_pure.1 h₄
      exact ⟨⟨t₁, .ok v⟩, some ⟨t₃, .ok ()⟩, h₁, .called h₃, by simp, rfl⟩

/-- A failure is notified by the turn of the failure hook, and a line if that raised. -/
theorem turn_of_notifyFailure {e : Error} {x : Except Error Unit}
    (h : (notifyFailure hooks m e).Ends t x) :
    ∃ failed, Called (hooks.failed.map (· m)) (some e) failed ∧
      ∀ handled succeeded, t = Passage.aftermath ⟨m, handled, succeeded, failed⟩ ∧
        x = Passage.hookEnd ⟨m, handled, succeeded, failed⟩ := by
  unfold notifyFailure at h
  cases hhook : hooks.failed with
  | none =>
    rw [hhook] at h
    obtain ⟨rfl, rfl⟩ := Run.ends_pure.1 h
    exact ⟨none, .absent, fun _ _ => ⟨rfl, rfl⟩⟩
  | some hook =>
    rw [hhook] at h
    obtain ⟨e', hguarded, rfl⟩ | ⟨t₁, y, t₂, hguarded, hrest, rfl⟩ := Run.ends_bind.1 h
    · obtain ⟨y, -, heq, -⟩ | ⟨f, hf, heq, hexc⟩ := ends_guarded hguarded
      · cases heq
      · obtain rfl := Except.error.inj heq
        refine ⟨some ⟨t, .error e'⟩, .called hf, fun _ _ => ?_⟩
        simp [Passage.aftermath, Passage.hookEnd, Passage.hookNoted, Turn.error?, noted, hexc]
    · obtain ⟨y', hy, heq, hexc⟩ | ⟨f, -, heq, -⟩ := ends_guarded hguarded
      · obtain rfl := Except.ok.inj heq
        refine ⟨some ⟨t₁, y⟩, .called hy, fun _ _ => ?_⟩
        cases y with
        | ok a =>
          obtain ⟨rfl, rfl⟩ := Run.ends_pure.1 hrest
          simp [Passage.aftermath, Passage.hookEnd, Passage.hookNoted, Turn.error?]
        | error f =>
          replace hexc := hexc f rfl
          obtain ⟨e', he', rfl, rfl⟩ | ⟨text, htext, hlog⟩ := Run.ends_lift_bind.1 hrest
          · simp [Passage.aftermath, Passage.hookEnd, Passage.hookNoted, Turn.error?, noted, hexc,
              he']
          · obtain ⟨rfl, rfl⟩ := Run.ends_log.1 hlog
            simp [Passage.aftermath, Passage.hookEnd, Passage.hookNoted, Turn.error?, noted, hexc,
              htext, hookLine]
      · cases heq

/-- A hook is not called where there is nothing to call it on. -/
theorem called_none_iff {α : Type} {hook : Option (α → Run Unit)} {turn : Option (Turn Unit)} :
    Called hook none turn ↔ turn = none := by
  constructor
  · intro h
    cases h <;> rfl
  · rintro rfl
    cases hook with
    | none => exact .absent
    | some hook => exact .idle

/-- A failure is noted and notified, and gives the message its outcome. -/
theorem turn_of_failure {handled : Turn Value} {succeeded : Option (Turn Unit)} {e : Error}
    {x : Except Error Outcome}
    (hproduced : Passage.produced ⟨m, handled, succeeded, none⟩ = .error e)
    (hexc : e.isException = true)
    (h : (do
      Run.log .error "message_processing_failed" [("message_id", .text m.id),
        ("error_type", .text e.cls.name), ("error", .text (← e.text))]
      notifyFailure hooks m e
      pure (.failure e) : Run Outcome).Ends t x) :
    ∃ failed, Called (hooks.failed.map (· m))
        (Passage.notified ⟨m, handled, succeeded, failed⟩) failed ∧
      handled.events ++ (succeeded.map Turn.events).getD [] ++ t =
        Passage.events ⟨m, handled, succeeded, failed⟩ ∧
      x = Passage.verdict ⟨m, handled, succeeded, failed⟩ := by
  have hproduced' {failed} : Passage.produced ⟨m, handled, succeeded, failed⟩ = .error e :=
    hproduced
  have hnoted : noted e = e.text := by simp [noted, hexc]
  obtain ⟨e', he', rfl, rfl⟩ | ⟨text, htext, hlog⟩ := Run.ends_lift_bind.1 h
  · have hnotified : Passage.notified ⟨m, handled, succeeded, none⟩ = none := by
      simp only [Passage.notified, hproduced, hnoted, he']
      rfl
    refine ⟨none, hnotified ▸ called_none_iff.2 rfl, ?_, ?_⟩
    · simp only [Passage.events, hproduced, hnoted, he']
    · simp only [Passage.verdict, hproduced, hnoted, he']
  have hnotified {failed} : Passage.notified ⟨m, handled, succeeded, failed⟩ = some e := by
    simp only [Passage.notified, hproduced', hnoted, htext]
    rfl
  obtain ⟨t₃, rfl, hrest⟩ := Run.ends_log_bind.1 hlog
  obtain ⟨e', hnotify, rfl⟩ | ⟨t₄, _, t₅, hnotify, hend, rfl⟩ := Run.ends_bind.1 hrest
  · obtain ⟨failed, hcalled, hturn⟩ := turn_of_notifyFailure hnotify
    obtain ⟨ht, hx⟩ := hturn handled succeeded
    refine ⟨failed, hnotified.symm ▸ hcalled, ?_, ?_⟩
    · simp only [Passage.events, hproduced', hnoted, htext, ht, failureLine]
    · simp only [Passage.verdict, hproduced', hnoted, htext, ← hx]
      rfl
  · obtain ⟨failed, hcalled, hturn⟩ := turn_of_notifyFailure hnotify
    obtain ⟨ht, hx⟩ := hturn handled succeeded
    obtain ⟨rfl, rfl⟩ := Run.ends_pure.1 hend
    refine ⟨failed, hnotified.symm ▸ hcalled, ?_, ?_⟩
    · simp only [Passage.events, hproduced', hnoted, htext, ht, failureLine, List.append_nil]
    · simp only [Passage.verdict, hproduced', hnoted, htext, ← hx]
      rfl

/-- **What a message goes through is a passage**, and its verdict is what the run ends in. -/
theorem passage_of_handle {x : Except Error Outcome} (h : (handle callee hooks m).Ends t x) :
    ∃ s : Passage, s.message = m ∧ s.Of callee hooks ∧ t = s.events ∧ x = s.verdict := by
  unfold handle at h
  obtain ⟨e, hguarded, rfl⟩ | ⟨t₁, y, t₂, hguarded, hrest, rfl⟩ := Run.ends_bind.1 h
  · obtain ⟨y, -, heq, -⟩ | ⟨f, hf, heq, hexc⟩ := ends_guarded hguarded
    · cases heq
    obtain rfl := Except.error.inj heq
    obtain ⟨handled, succeeded, hhandled, hsucceeded, rfl, hproduced⟩ := turns_of_produce hf
    have hnoted : noted e = .error e := by simp [noted, hexc]
    have hnotified : Passage.notified ⟨m, handled, succeeded, none⟩ = none := by
      simp only [Passage.notified, ← hproduced, hnoted]
      rfl
    refine ⟨⟨m, handled, succeeded, none⟩, rfl, ⟨hhandled, hsucceeded, ?_⟩, ?_, ?_⟩
    · exact hnotified ▸ called_none_iff.2 rfl
    · simp only [Passage.events, ← hproduced, hnoted, List.append_nil]
    · simp only [Passage.verdict, ← hproduced, hnoted]
  obtain ⟨y', hy, heq, hexc⟩ | ⟨f, -, heq, -⟩ := ends_guarded hguarded
  · obtain rfl := Except.ok.inj heq
    obtain ⟨handled, succeeded, hhandled, hsucceeded, rfl, hproduced⟩ := turns_of_produce hy
    cases y with
    | ok v =>
      obtain ⟨rfl, rfl⟩ := Run.ends_pure.1 hrest
      have hnotified : Passage.notified ⟨m, handled, succeeded, none⟩ = none := by
        simp only [Passage.notified, ← hproduced]
      refine ⟨⟨m, handled, succeeded, none⟩, rfl, ⟨hhandled, hsucceeded, ?_⟩, ?_, ?_⟩
      · exact hnotified ▸ called_none_iff.2 rfl
      · simp only [Passage.events, ← hproduced]
      · simp only [Passage.verdict, ← hproduced]
    | error e =>
      obtain ⟨failed, hfailed, ht, hx⟩ := turn_of_failure hproduced.symm (hexc e rfl) hrest
      exact ⟨⟨m, handled, succeeded, failed⟩, rfl, ⟨hhandled, hsucceeded, hfailed⟩, ht, hx⟩
  · cases heq

/-! ## Courses of a list of messages -/

/-- The passages of messages, one after another up to the first that an error comes out of, and
the outcomes or that error. -/
inductive Passages (callee : Callee) (hooks : Hooks) :
    List Message → List Passage → Except Error (List (Message × Outcome)) → Prop
  | done : Passages callee hooks [] [] (.ok [])
  | halted {s : Passage} {ms : List Message} {e : Error} (h : s.Of callee hooks)
      (hverdict : s.verdict = .error e) : Passages callee hooks (s.message :: ms) [s] (.error e)
  | next {s : Passage} {o : Outcome} {ms : List Message} {ss : List Passage}
      {x : Except Error (List (Message × Outcome))} (h : s.Of callee hooks)
      (hverdict : s.verdict = .ok o) (rest : Passages callee hooks ms ss x) :
      Passages callee hooks (s.message :: ms) (s :: ss) (x.map ((s.message, o) :: ·))

/-- **Messages go through their passages in order.** -/
theorem passages_of_handleAll {ms : List Message} {x : Except Error (List (Message × Outcome))}
    (h : (handleAll callee hooks ms).Ends t x) :
    ∃ ss, Passages callee hooks ms ss x ∧ t = ss.flatMap Passage.events := by
  induction ms generalizing t x with
  | nil =>
    obtain ⟨rfl, rfl⟩ := Run.ends_pure.1 h
    exact ⟨[], .done, rfl⟩
  | cons m ms ih =>
    unfold handleAll at h
    obtain ⟨e, he, rfl⟩ | ⟨t₁, o, t₂, h₁, h₂, rfl⟩ := Run.ends_bind.1 h
    · obtain ⟨s, rfl, hof, rfl, hverdict⟩ := passage_of_handle he
      exact ⟨[s], .halted hof hverdict.symm, by simp⟩
    obtain ⟨s, rfl, hof, rfl, hverdict⟩ := passage_of_handle h₁
    obtain ⟨e, he, rfl⟩ | ⟨t₃, others, t₄, h₃, h₄, rfl⟩ := Run.ends_bind.1 h₂
    · obtain ⟨ss, hss, rfl⟩ := ih he
      exact ⟨s :: ss, .next hof hverdict.symm hss, by simp⟩
    · obtain ⟨ss, hss, rfl⟩ := ih h₃
      obtain ⟨rfl, rfl⟩ := Run.ends_pure.1 h₄
      exact ⟨s :: ss, .next hof hverdict.symm hss, by simp⟩

namespace Passages

variable {ms : List Message} {ss : List Passage} {outcomes : List (Message × Outcome)}
  {x : Except Error (List (Message × Outcome))}

/-- Every passage of a list can be shown by the handler and the hooks. -/
theorem of_mem (h : Passages callee hooks ms ss x) {s : Passage} (hs : s ∈ ss) :
    s.Of callee hooks := by
  induction h with
  | done => simp at hs
  | halted h => exact List.mem_singleton.1 hs ▸ h
  | next h _ _ ih =>
    rcases List.mem_cons.1 hs with rfl | hs
    · exact h
    · exact ih hs

/-- The passages are those of the first messages. -/
theorem messages_prefix (h : Passages callee hooks ms ss x) :
    ss.map Passage.message <+: ms := by
  induction h with
  | done => exact List.prefix_refl _
  | halted => exact (List.prefix_cons_inj _).2 List.nil_prefix
  | next _ _ _ ih => exact (List.prefix_cons_inj _).2 ih

/-- If all messages have outcomes, each had its passage, and its verdict is its outcome. -/
theorem messages_eq (h : Passages callee hooks ms ss (.ok outcomes)) :
    ss.map Passage.message = ms ∧ outcomes.map Prod.fst = ms ∧
      ss.map Passage.verdict = outcomes.map fun o => .ok o.2 := by
  generalize hx : (Except.ok outcomes : Except Error (List (Message × Outcome))) = x at h
  induction h generalizing outcomes with
  | done =>
    obtain rfl := Except.ok.inj hx
    exact ⟨rfl, rfl, rfl⟩
  | halted => cases hx
  | @next s o ms ss y _ hverdict _ ih =>
    cases y with
    | error e => cases hx
    | ok others =>
      obtain rfl := Except.ok.inj hx
      obtain ⟨hss, hothers, hverdicts⟩ := ih rfl
      simp [hss, hothers, hverdicts, hverdict]

end Passages
end Batch

namespace Processor

variable {p : Processor} {ms : List Message} {handler : Handler} {t : List Event}

/-- All messages of a batch are handled in passages, once the handler is resolved. -/
theorem passages_of_handling {x : Except Error (List (Message × Outcome))}
    (h : (p.handling ms handler).Ends t x) :
    (∃ e, handler.resolve.Ends t (.error e) ∧ x = .error e) ∨
      ∃ resolving callee ss, handler.resolve.Ends resolving (.ok callee) ∧
        Batch.Passages callee p.hooks ms ss x ∧
        t = resolving ++ ss.flatMap Batch.Passage.events := by
  unfold handling at h
  obtain ⟨e, he, rfl⟩ | ⟨t₁, callee, t₂, h₁, h₂, rfl⟩ := Run.ends_bind.1 h
  · exact .inl ⟨e, he, rfl⟩
  · obtain ⟨ss, hss, rfl⟩ := Batch.passages_of_handleAll h₂
    exact .inr ⟨t₁, callee, ss, h₁, hss, rfl⟩

/-- The outcomes of a batch are those of its messages, in order. -/
theorem messages_of_handling {outcomes : List (Message × Outcome)}
    (h : (p.handling ms handler).Ends t (.ok outcomes)) : outcomes.map Prod.fst = ms := by
  obtain ⟨e, -, heq⟩ | ⟨_, _, ss, -, hss, -⟩ := passages_of_handling h
  · cases heq
  · exact hss.messages_eq.2.1

end Processor

/-! ## A batch to look at -/

namespace Sample

/-- A message of the queue `orders`. -/
def order (id body : Text) : Message where
  id := id
  receiptHandle := id
  body := body
  source := "arn:aws:sqs:eu:1:orders"
  attributes := []
  messageAttributes := []
  bodyDigest := none
  region := none

/-- A record, and two bodies that are no records. -/
def orders : List Message := [order "a" "\x7b\x7d", order "b" "[]", order "c" "[]"]

/-- A processor with hooks, for which malformed records are not retryable. -/
def processor : Processor where
  settings := Consumer.settings []
  triage := ⟨[.malformedRecord], []⟩
  hooks := ⟨some Hooks.askSucceeded, some Hooks.askFailed⟩

/-- The error for a body that is no record. -/
def malformed (id : Text) : Error := .malformedRecord "Message body must be a JSON object" id

/-- The outcomes of `orders`. -/
def outcomes : List (Message × Outcome) :=
  [(order "a" "\x7b\x7d",
      .success (.object [("messageId", .text "a"), ("status", .text "success")])),
    (order "b" "[]", .failure (malformed "b")), (order "c" "[]", .failure (malformed "c"))]

/-- `orders` can get these outcomes. -/
theorem exists_handled :
    ∃ t, (processor.handling orders Consumer.handler).Ends t (.ok outcomes) := by
  have h := Run.ends_exec (.service fun _ => .ok .null)
    (processor.handling orders Consumer.handler) ()
  have houtcomes : ((processor.handling orders Consumer.handler).exec
      (.service fun _ => .ok .null) ()).2.1 = .ok outcomes := by decide +kernel
  rw [houtcomes] at h
  exact ⟨_, h⟩

end Sample
end PartialBatch
