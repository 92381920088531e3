/-
# Isolation of messages

What the handler or a hook raises for one message stays with that message: it is noted, and the
next message is handled. Noting needs the text of the error, outside of any guard, and that is
the one way out of the loop:

| raised | its text | the loop |
| --- | --- | --- |
| an error that has a text | is noted | goes on |
| what tells a value that cannot be shown | none | ends in the error of showing it |
| of a class that words it and raises | none | ends in what the class raises |
| coded, without a code that counts as true, its message no text | none | ends in a `TypeError` |

The last three are all there is without a text (`Error.text_eq_error`).  `verdict_iff` settles one
passage, `Passages.completed_iff` all of a batch, and `loop_completes_iff` a whole course. So the
guards isolate messages exactly as long as every error has a text; an error without one from a
failure hook, which is to be ignored, ends the batch as well (`not_isolated`).
-/

import PartialBatch.Proofs.Batch.Passages

namespace PartialBatch
namespace Batch

variable {callee : Callee} {hooks : Hooks} {s : Passage} {ms : List Message} {ss : List Passage}
  {x : Except Error (List (Message × Outcome))} {e : Error}

/-! ## One message -/

/-- An error that a consumer answers for is noted if it has a text. -/
theorem noted_of_isException (hexc : e.isException = true) : noted e = e.text := if_pos hexc

namespace Passage

/-- What was raised on the way: nothing if a value was produced; otherwise the error in its
place, and what the failure hook raised. -/
theorem Of.raised_eq (h : s.Of callee hooks) : s.raised =
    match s.produced with
    | .ok _ => []
    | .error e => e :: (s.failed.bind Turn.error?).toList := by
  obtain ⟨m, ⟨events, result⟩, succeeded, failed⟩ := s
  obtain ⟨-, hsucceeded, hfailed⟩ := h
  cases result with
  | error e =>
    obtain rfl : succeeded = none := called_none_iff.1 hsucceeded
    rfl
  | ok v =>
    cases hraised : succeeded.bind Turn.error? with
    | some e => simp [raised, produced, hraised, Turn.error?]
    | none =>
      have hproduced : produced ⟨m, ⟨events, .ok v⟩, succeeded, failed⟩ = .ok v := by
        simp only [produced, hraised]
      have hnone : failed = none := by
        simp only [notified, hproduced] at hfailed
        exact called_none_iff.1 hfailed
      simp [raised, produced, hraised, hnone, Turn.error?]

/-- **A message gets an outcome exactly if every error raised for it has a text**; otherwise the
error of asking for a text comes out of its passage. -/
theorem Of.verdict_iff (h : s.Of callee hooks) (hexc : ∀ e ∈ s.raised, e.isException = true) :
    ((∀ e ∈ s.raised, ∃ t, e.text = .ok t) ∧ ∃ o, s.verdict = .ok o) ∨
      ∃ e ∈ s.raised, ∃ f, e.text = .error f ∧ s.verdict = .error f := by
  have hraised := h.raised_eq
  cases hproduced : s.produced with
  | ok v =>
    rw [hproduced] at hraised
    exact .inl ⟨by simp [hraised], .success v, by simp only [verdict, hproduced]⟩
  | error e =>
    rw [hproduced] at hraised
    have he : e ∈ s.raised := by simp [hraised]
    have hnoted := noted_of_isException (hexc e he)
    cases htext : e.text with
    | error f =>
      exact .inr ⟨e, he, f, htext, by simp only [verdict, hproduced, hnoted, htext]⟩
    | ok t =>
      cases hhook : s.failed.bind Turn.error? with
      | none =>
        refine .inl ⟨by simp [hraised, hhook, htext], .failure e, ?_⟩
        simp only [verdict, hproduced, hnoted, htext, hookEnd, hookNoted, hhook]
        rfl
      | some f =>
        have hf : f ∈ s.raised := by simp [hraised, hhook]
        have hnoted' := noted_of_isException (hexc f hf)
        cases htext' : f.text with
        | ok t' =>
          refine .inl ⟨by simp [hraised, hhook, htext, htext'], .failure e, ?_⟩
          simp only [verdict, hproduced, hnoted, htext, hookEnd, hookNoted, hhook, Option.map_some,
            hnoted', htext']
          rfl
        | error f' =>
          refine .inr ⟨f, hf, f', htext', ?_⟩
          simp only [verdict, hproduced, hnoted, htext, hookEnd, hookNoted, hhook, Option.map_some,
            hnoted', htext']
          rfl

end Passage

/-! ## All messages -/

/-- **The loop over the messages runs to its end exactly if every error raised in it has a text**;
otherwise it ends in the error of asking for one. -/
theorem Passages.completed_iff (h : Passages callee hooks ms ss x)
    (hexc : ∀ s ∈ ss, ∀ e ∈ s.raised, e.isException = true) :
    ((∀ s ∈ ss, ∀ e ∈ s.raised, ∃ t, e.text = .ok t) ∧ ∃ outcomes, x = .ok outcomes) ∨
      ∃ s ∈ ss, ∃ e ∈ s.raised, ∃ f, e.text = .error f ∧ x = .error f := by
  induction h with
  | done => exact .inl ⟨by simp, [], rfl⟩
  | @halted s ms e hof hverdict =>
    rcases hof.verdict_iff (hexc s (List.mem_cons_self ..)) with
      ⟨-, o, ho⟩ | ⟨e', he', f, htext, hf⟩
    · rw [ho] at hverdict
      cases hverdict
    · obtain rfl := Except.error.inj (hverdict.symm.trans hf)
      exact .inr ⟨s, List.mem_cons_self .., e', he', e, htext, rfl⟩
  | @next s o ms ss y hof hverdict _ ih =>
    have hs : ∀ e ∈ s.raised, ∃ t, e.text = .ok t := by
      rcases hof.verdict_iff (hexc s (List.mem_cons_self ..)) with ⟨hs, -⟩ | ⟨-, -, f, -, hf⟩
      · exact hs
      · rw [hverdict] at hf
        cases hf
    rcases ih fun s hs => hexc s (List.mem_cons_of_mem _ hs) with
      ⟨hss, outcomes, rfl⟩ | ⟨s', hs', e, he, f, htext, rfl⟩
    · exact .inl ⟨List.forall_mem_cons.2 ⟨hs, hss⟩, _, rfl⟩
    · exact .inr ⟨s', List.mem_cons_of_mem _ hs', e, he, f, htext, rfl⟩

end Batch

/-! ## A whole batch -/

namespace Processor

variable {p : Processor} {ms : List Message} {handler : Handler} {callee : Callee}
  {resolving t rest : List Event} {ss : List Batch.Passage} {x : Except Error (List Value)}

/-- Whether the loop over the messages of a batch ran to its end: each message had its passage,
in order, and got its outcome, and the rest of the events concludes the batch. -/
def Completed (p : Processor) (ms : List Message) (ss : List Batch.Passage) (rest : List Event)
    (x : Except Error (List Value)) : Prop :=
  ss.map Batch.Passage.message = ms ∧ ∃ outcomes : List (Message × Outcome),
    outcomes.map Prod.fst = ms ∧ ss.map Batch.Passage.verdict = outcomes.map (fun o => .ok o.2) ∧
      (p.conclude outcomes).Ends rest x

/-- In a loop that ran to its end, every verdict is an outcome. -/
theorem Completed.exists_outcome (h : p.Completed ms ss rest x) {s : Batch.Passage} (hs : s ∈ ss) :
    ∃ o, s.verdict = .ok o := by
  obtain ⟨-, outcomes, -, hverdicts, -⟩ := h
  have hmem : s.verdict ∈ outcomes.map fun o => .ok o.2 := by
    rw [← hverdicts]
    exact List.mem_map_of_mem hs
  obtain ⟨o, -, ho⟩ := List.mem_map.1 hmem
  exact ⟨o.2, ho.symm⟩

/-- **Messages are isolated exactly if every raised error has a text.** Once the handler is resolved,
messages have their passages, in order. If a consumer answers for all errors that are raised in
them, the loop runs to its end if each of them has a text, and otherwise ends there in the error of
asking one for it. -/
theorem loop_completes_iff (hresolve : handler.resolve.Ends resolving (.ok callee))
    (h : (p.process ms handler).Ends (resolving ++ t) x) :
    ∃ ss y rest, Batch.Passages callee p.hooks ms ss y ∧
      t = ss.flatMap Batch.Passage.events ++ rest ∧ ss.map Batch.Passage.message <+: ms ∧
      ((∀ s ∈ ss, ∀ e ∈ s.raised, e.isException = true) →
        (p.Completed ms ss rest x ↔ ∀ s ∈ ss, ∀ e ∈ s.raised, ∃ t, e.text = .ok t) ∧
        (p.Completed ms ss rest x ∨
          rest = [] ∧ ∃ s ∈ ss, ∃ e ∈ s.raised, ∃ f, e.text = .error f ∧ x = .error f)) := by
  have hloop : (Batch.handleAll callee p.hooks ms >>= p.conclude).Ends t x :=
    (Run.ends_bind_append hresolve).1 h
  have htold {ss : List Batch.Passage} {rest : List Event} (hof : ∀ s ∈ ss, s.Of callee p.hooks)
      (hexc : ∀ s ∈ ss, ∀ e ∈ s.raised, e.isException = true)
      (hcompleted : p.Completed ms ss rest x) : ∀ s ∈ ss, ∀ e ∈ s.raised, ∃ t, e.text = .ok t := by
    intro s hs
    obtain ⟨o, ho⟩ := hcompleted.exists_outcome hs
    rcases (hof s hs).verdict_iff (hexc s hs) with ⟨htexts, -⟩ | ⟨-, -, f, -, hf⟩
    · exact htexts
    · rw [ho] at hf
      cases hf
  obtain ⟨e, he, rfl⟩ | ⟨t₁, outcomes, t₂, h₁, h₂, rfl⟩ := Run.ends_bind.1 hloop
  · obtain ⟨ss, hss, rfl⟩ := Batch.passages_of_handleAll he
    have hof (s : Batch.Passage) (hs : s ∈ ss) := hss.of_mem hs
    refine ⟨ss, _, [], hss, (List.append_nil _).symm, hss.messages_prefix, fun hexc => ?_⟩
    rcases hss.completed_iff hexc with ⟨-, outcomes, heq⟩ | ⟨s, hs, e', he', f, htext, heq⟩
    · cases heq
    obtain rfl := Except.error.inj heq
    refine ⟨⟨htold hof hexc, fun hall => ?_⟩, .inr ⟨rfl, s, hs, e', he', e, htext, rfl⟩⟩
    obtain ⟨text, hok⟩ := hall s hs e' he'
    cases htext.symm.trans hok
  · obtain ⟨ss, hss, rfl⟩ := Batch.passages_of_handleAll h₁
    have hof (s : Batch.Passage) (hs : s ∈ ss) := hss.of_mem hs
    obtain ⟨hmessages, houtcomes, hverdicts⟩ := hss.messages_eq
    have hcompleted : p.Completed ms ss t₂ x := ⟨hmessages, outcomes, houtcomes, hverdicts, h₂⟩
    exact ⟨ss, _, t₂, hss, rfl, hss.messages_prefix, fun hexc =>
      ⟨⟨htold hof hexc, fun _ => hcompleted⟩, .inl hcompleted⟩⟩

end Processor

/-! ## An error without a text that ends a batch -/

namespace Sample

/-- A handler that fails on every message. -/
def failing : Callee := ⟨fun _ => .raise (.saying .runtimeError "boom"), .done ()⟩

/-- An object that handles messages like that. -/
def failingHandler : Handler := .object (some failing) none (.ok "failing")

/-- An error with a status in the place of a message. -/
def mute : Error := .coded ⟨.coded, .int 404, .null, .object [], [], .told⟩

/-- A processor whose failure hook raises it. -/
def muteProcessor : Processor where
  settings := .ofEnvironment [] []
  triage := ⟨[], []⟩
  hooks := ⟨none, some fun _ _ => .raise mute⟩

/-- What the first message goes through with them. -/
def cut : Batch.Passage where
  message := order "a" "\x7b\x7d"
  handled := ⟨[], .error (.saying .runtimeError "boom")⟩
  succeeded := none
  failed := some ⟨[], .error mute⟩

theorem ends_muteProcessor : (muteProcessor.process orders failingHandler).Ends cut.events
    (.error (.unworded .typeError)) := ⟨(), [], rfl, rfl, rfl⟩

end Sample

namespace Processor

/-- Every message of a batch fails, and the errors that are raised have texts or not. -/
theorem loop_completes_iff_sample :
    Sample.failingHandler.resolve.Ends [] (.ok Sample.failing) ∧
      (Sample.muteProcessor.process Sample.orders Sample.failingHandler).Ends
        ([] ++ Sample.cut.events) (.error (.unworded .typeError)) ∧
      ∃ ss y rest, Batch.Passages Sample.failing Sample.muteProcessor.hooks Sample.orders ss y ∧
        Sample.cut.events = ss.flatMap Batch.Passage.events ++ rest ∧
        ss.map Batch.Passage.message <+: Sample.orders ∧
        ((∀ s ∈ ss, ∀ e ∈ s.raised, e.isException = true) →
          (Sample.muteProcessor.Completed Sample.orders ss rest (.error (.unworded .typeError)) ↔
            ∀ s ∈ ss, ∀ e ∈ s.raised, ∃ t, e.text = .ok t) ∧
          (Sample.muteProcessor.Completed Sample.orders ss rest (.error (.unworded .typeError)) ∨
            rest = [] ∧ ∃ s ∈ ss, ∃ e ∈ s.raised, ∃ f, e.text = .error f ∧
              .error (.unworded .typeError) = (.error f : Except Error (List Value)))) := by
  have hresolve : Sample.failingHandler.resolve.Ends [] (.ok Sample.failing) := ⟨rfl, rfl⟩
  exact ⟨hresolve, Sample.ends_muteProcessor, loop_completes_iff hresolve Sample.ends_muteProcessor⟩

/-- **An error without a text from a failure hook ends the batch.** All errors raised for the first of
three messages are such that a consumer answers for them, and a `TypeError` ends the batch there. -/
theorem not_isolated :
    (Sample.muteProcessor.process Sample.orders Sample.failingHandler).Ends
        Sample.cut.events (.error (.unworded .typeError)) ∧
      Sample.cut.Of Sample.failing Sample.muteProcessor.hooks ∧
      (∀ e ∈ Sample.cut.raised, e.isException = true) ∧
      Sample.orders.length = 3 ∧ Sample.orders.head? = some Sample.cut.message := by
  refine ⟨Sample.ends_muteProcessor, ⟨⟨rfl, rfl⟩, .absent, .called ⟨rfl, rfl⟩⟩, ?_, rfl, rfl⟩
  decide

end Processor
end PartialBatch
