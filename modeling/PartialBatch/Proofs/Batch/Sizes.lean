/-
# The size of requests does not matter

Two runs of a batch with the same outcomes, whose queue service decides on each entry on its own, may
differ in the size of their requests:

| | one size | another |
| --- | --- | --- |
| requests | `cut k` of the passes | `cut l` of the same passes |
| what a batch ends in | the same | the same |
| queues, in order | the same | the same |
| entries of a queue, in order | the same | the same |

So any whole number from 1 to 10 does the work of one message in a request (`sizes_agree`).  A floating
point number in that range is a valid size too, but it makes no chunks (`sizes_differ`).
-/

import PartialBatch.Proofs.Batch.EntryWise
import PartialBatch.Proofs.Batch.Requests

namespace PartialBatch

/-- What handling messages comes to, if what making the handler comes to is given, and by a rule what
becomes of a message: its outcome, or an error that ends the batch. -/
def Batch.outcomesBy (start : Except Error Unit) (rule : Message → Except Error Outcome)
    (ms : List Message) : Except Error (List (Message × Outcome)) := do
  start
  ms.mapM fun m => do pure (m, ← rule m)

/-- The passes of a batch and what it ends in, after its outcomes or the error in their place. -/
def EntryWise.conclusion (s : EntryWise) (p : Processor) :
    Except Error (List (Message × Outcome)) → List Request × Except Error (List Value)
  | .error e => ([], .error e)
  | .ok outcomes =>
    if (Batch.failures outcomes).isEmpty then ([], .ok (Processor.values outcomes))
    else
      let (passes, stop) := s.cleanup p.settings p.triage
        ((Batch.successes outcomes).map Prod.fst) (Batch.failures outcomes)
      (passes, match stop with
        | none => p.ending outcomes
        | some e => .error e)

theorem EntryWise.conclusion_of_failures_eq_nil {s : EntryWise} {p : Processor}
    {outcomes : List (Message × Outcome)} (h : Batch.failures outcomes = []) :
    s.conclusion p (.ok outcomes) = ([], .ok (Processor.values outcomes)) :=
  if_pos (List.isEmpty_iff.2 h)

theorem EntryWise.conclusion_of_failures_ne_nil {s : EntryWise} {p : Processor}
    {outcomes : List (Message × Outcome)} (h : Batch.failures outcomes ≠ []) :
    s.conclusion p (.ok outcomes) =
      let (passes, stop) := s.cleanup p.settings p.triage
        ((Batch.successes outcomes).map Prod.fst) (Batch.failures outcomes)
      (passes, match stop with
        | none => p.ending outcomes
        | some e => .error e) :=
  if_neg (mt List.isEmpty_iff.1 h)

namespace Processor

variable {p : Processor} {start : Except Error Unit} {rule : Message → Except Error Outcome}
  {s : EntryWise} {ms : List Message} {handler handler' : Handler} {rest : List Event}
  {x : Except Error (List Value)} {n : Nat}

/-- Whether a batch comes to its outcomes by a rule, and goes on with answers of a service that
decides on each entry on its own. -/
structure Ruled (p : Processor) (start : Except Error Unit) (rule : Message → Except Error Outcome)
    (s : EntryWise) (ms : List Message) (handler : Handler) (rest : List Event)
    (x : Except Error (List Value)) : Prop where
  /-- The batch has a course in which it comes to the outcomes, or to the error in their place, and
  this is the rest of it. -/
  course : ∃ handled, (p.handling ms handler).Ends handled (Batch.outcomesBy start rule ms) ∧
    (p.process ms handler).Ends (handled ++ rest) x
  /-- All that follows is answered by the service. -/
  answered : ∀ c ∈ calls rest, s.Answers c

/-- **A batch comes to the same passes and the same end**, whatever its requests hold. -/
theorem Ruled.requests_eq (h : p.Ruled start rule s ms handler rest x)
    (hsize : p.settings.maxBatchSize.whole? = some n) :
    x = (s.conclusion p (Batch.outcomesBy start rule ms)).2 ∧ (calls rest).map Call.request =
      (s.conclusion p (Batch.outcomesBy start rule ms)).1.flatMap (Request.cut n) := by
  obtain ⟨handled, hhandling, hprocess⟩ := h.course
  have hanswered := h.answered
  generalize Batch.outcomesBy start rule ms = outcomes at hhandling
  cases outcomes with
  | error e =>
    have haborted : (p.process ms handler).Ends handled (.error e) :=
      ends_process.2 ⟨handled, [], [], (List.append_nil _).symm, .aborted hhandling⟩
    obtain ⟨rfl, rfl⟩ := haborted.eq_nil_of_append hprocess
    exact ⟨rfl, rfl⟩
  | ok outcomes =>
    have hconclude := (ends_process_append hhandling).1 hprocess
    by_cases hfailures : Batch.failures outcomes = []
    · rw [calls_of_conclude hconclude hfailures, values_of_conclude hconclude hfailures,
        EntryWise.conclusion_of_failures_eq_nil hfailures]
      exact ⟨rfl, rfl⟩
    · obtain ⟨u, stop, hreconciliation, hcalls, rfl⟩ := exists_reconciliation hconclude hfailures
      rw [← hcalls] at hanswered ⊢
      obtain ⟨rfl, hrequests⟩ := Batch.requests_of_reconcile hsize hreconciliation hanswered
      rw [EntryWise.conclusion_of_failures_ne_nil hfailures]
      exact ⟨rfl, hrequests⟩

/-- What a batch does with such a service is a course of this kind. -/
theorem ruled_of_handling {handled : List Event} {outcomes : List (Message × Outcome)}
    (houtcomes : Batch.outcomesBy start rule ms = .ok outcomes)
    (h : (p.handling ms handler).Ends handled (.ok outcomes)) :
    p.Ruled start rule s ms handler
      ((p.conclude outcomes).exec (.service fun r => .ok (s.serve r)) ()).1
      ((p.conclude outcomes).exec (.service fun r => .ok (s.serve r)) ()).2.1 where
  course := ⟨handled, houtcomes ▸ h, (ends_process_append h).2 (Run.ends_exec _ _ _)⟩
  answered := fun c hc => EntryWise.answers_of_serve (calls_exec_service _ c hc)

/-- A batch that comes to its outcomes by a rule has a course of this kind. -/
theorem exists_ruled {handled : List Event}
    (h : (p.handling ms handler).Ends handled (Batch.outcomesBy start rule ms)) :
    ∃ rest x, p.Ruled start rule s ms handler rest x := by
  cases houtcomes : Batch.outcomesBy start rule ms with
  | ok outcomes => exact ⟨_, _, ruled_of_handling houtcomes (houtcomes ▸ h)⟩
  | error e =>
    have haborted : p.Stages ms handler handled [] [] (.error e) := .aborted (houtcomes ▸ h)
    exact ⟨[], .error e, ⟨handled, h, ends_process.2 ⟨handled, [], [], rfl, haborted⟩⟩, nofun⟩

/-- **The size of requests does not matter**, if it is a whole number. Two runs of a batch that differ
in it end in the same and do the same work, and if there is one with the first size, there is one with
the second. With a second size of 1 that is a run with one message in each request. -/
theorem sizes_agree {a b : Size} {k l : Nat}
    {ha : (a.atLeast 1 && a.atMost maxEntries) = true}
    {hb : (b.atLeast 1 && b.atMost maxEntries) = true} (hk : a.whole? = some k)
    (hl : b.whole? = some l) (h : (p.sized a ha).Ruled start rule s ms handler rest x) :
    (∃ rest' x', (p.sized b hb).Ruled start rule s ms handler rest' x') ∧
    ∀ handler' rest' x', (p.sized b hb).Ruled start rule s ms handler' rest' x' →
      x' = x ∧ SameWork (calls rest) (calls rest') := by
  constructor
  · obtain ⟨handled, hhandling, -⟩ := h.course
    exact exists_ruled (p := p.sized b hb) hhandling
  · intro handler' rest' x' h'
    obtain ⟨rfl, hrequests⟩ := h.requests_eq hk
    obtain ⟨rfl, hrequests'⟩ := h'.requests_eq hl
    refine ⟨rfl, sameWork_of_cuts ?_ hrequests hrequests'⟩
    unfold EntryWise.conclusion
    split
    · exact nofun
    · split
      · exact nofun
      · exact s.isFilled_cleanup _ _ _ _

end Processor

namespace Sample

/-- A service whose queues have a dead-letter queue, which accepts all entries but those of `c`. -/
def choosy : EntryWise where
  attributes queueUrl := serve (.attributes (.text queueUrl) [])
  keeps _ _ := false
  rejects _ entry := Batch.names entry "c"

/-- The processor of `orders` with one entry in a request. -/
def oneByOne : Processor := processor.sized 1 (by decide)

/-- Two and a half. -/
def half : Size := .float (.finite false 5629499534213120 (-51))

end Sample

namespace Processor

/-- `b` and `c` are sent in one request or in two; `b` is deleted, and `c` is not. -/
theorem sizes_agree_sample : ∃ rest x,
    (Sample.processor.sized 10 (by decide)).Ruled (.ok ()) (fun m => .ok (Sample.rule m))
        Sample.choosy Sample.orders Consumer.handler rest x ∧
      (calls rest).map Call.request = Sample.requests ∧
      (10 : Size).whole? = some 10 ∧ (1 : Size).whole? = some 1 ∧
      (∃ rest' x', Sample.oneByOne.Ruled (.ok ())
        (fun m => .ok (Sample.rule m)) Sample.choosy Sample.orders Consumer.handler rest' x') ∧
      ∀ handler' rest' x', Sample.oneByOne.Ruled (.ok ())
          (fun m => .ok (Sample.rule m)) Sample.choosy Sample.orders handler' rest' x' →
        x' = x ∧ SameWork (calls rest) (calls rest') := by
  obtain ⟨handled, hhandling⟩ := Sample.exists_handled
  have houtcomes : Batch.outcomesBy (.ok ()) (fun m => .ok (Sample.rule m)) Sample.orders =
      .ok Sample.outcomes := by decide +kernel
  have h := ruled_of_handling (p := Sample.processor.sized 10 (by decide)) (s := Sample.choosy)
    houtcomes hhandling
  have hk : (10 : Size).whole? = some 10 := rfl
  have hl : (1 : Size).whole? = some 1 := rfl
  exact ⟨_, _, h, by decide +kernel, hk, hl, sizes_agree hk hl h⟩

/-- **A size that is no whole number matters.** Two and a half is valid, and ends the same batch in a
`TypeError` without a call. -/
theorem sizes_differ : ∃ rest x rest' x',
    (Sample.processor.sized 10 (by decide)).Ruled (.ok ()) (fun m => .ok (Sample.rule m))
        Sample.choosy Sample.orders Consumer.handler rest x ∧
      (Sample.processor.sized Sample.half (by decide)).Ruled (.ok ())
        (fun m => .ok (Sample.rule m)) Sample.choosy Sample.orders Consumer.handler rest' x' ∧
      x = .error (.reported (Batch.failures Sample.outcomes) (values Sample.outcomes)) ∧
      x' = .error (.unworded .typeError) ∧ x ≠ x' ∧
      (calls rest).map Call.request = Sample.requests ∧ calls rest' = [] := by
  obtain ⟨handled, hhandling⟩ := Sample.exists_handled
  have houtcomes : Batch.outcomesBy (.ok ()) (fun m => .ok (Sample.rule m)) Sample.orders =
      .ok Sample.outcomes := by decide +kernel
  have h := ruled_of_handling (p := Sample.processor.sized 10 (by decide)) (s := Sample.choosy)
    houtcomes hhandling
  have h' := ruled_of_handling (p := Sample.processor.sized Sample.half (by decide))
    (s := Sample.choosy) houtcomes hhandling
  exact ⟨_, _, _, _, h, h', by decide +kernel, by decide +kernel, by decide +kernel,
    by decide +kernel, by decide +kernel⟩

end Processor
end PartialBatch
