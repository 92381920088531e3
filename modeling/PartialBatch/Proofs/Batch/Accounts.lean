/-
# The log accounts for every message

Whoever has only the log of a batch can tell what became of its messages.  The line that counts them
comes after all of them were handled and before anything is done to the queues; each failure was
named before it, in order, and what is seen after it adds up to the failures.

| line | seen | accounts for |
| --- | --- | --- |
| `message_processing_failed` | in the passage of a message that failed | that message |
| `batch_processed` | once, after all passages | the batch, by its outcomes |
| lines of a reconciliation | after that | all failures, if it ends well (`Batch.Ledger`) |

Handlers and hooks may write lines of their own, under any event.  So what is seen of a passage is
said by its parts (`Passage.Seen`): there is one line that names the message, between what is seen
of the handler and of the failure hook, and only if these write nothing about the same event, the
lines about it are those.  What follows the line that counts is the processor's own, and needs no such
condition.
-/

import PartialBatch.Proofs.Batch.Bookkeeping
import PartialBatch.Proofs.Batch.Exactness
import PartialBatch.Proofs.Batch.Ledger

namespace PartialBatch

open Log

/-! ## Entries of the processor's own -/

namespace Ask

variable {q : Ask} {lines : List (Text × Log.Level)} {event : Text}

/-- Entries of other kinds are not about an event. -/
theorem IsOwn.avoids (h : q.IsOwn lines) (hevent : event ∉ lines.map Prod.fst) :
    q.Avoids event := by
  cases q with
  | log entry =>
    obtain ⟨level, other, fields, rfl, hmem, -⟩ := h
    refine ⟨Value.noConfusion, fun heq => hevent ?_⟩
    rw [← Value.text.inj heq]
    exact List.mem_map_of_mem hmem
  | _ => trivial

/-- Entries of the processor's own are plain, if their level is. -/
theorem IsOwn.plain (h : q.IsOwn lines)
    (hlevel : ∀ level, (event, level) ∈ lines → level.reaches .info = true) : q.Plain event := by
  cases q with
  | log entry =>
    obtain ⟨level, other, fields, rfl, hmem, hfields⟩ := h
    have hreserved : ∀ name ∈ ownFields, name ∉ Entry.reserved := by decide
    refine ⟨Value.noConfusion, fun heq => ?_⟩
    obtain rfl := Value.text.inj heq
    exact .intro (hlevel level hmem) fun f hf => hreserved _ (hfields f hf)
  | _ => trivial

end Ask

/-! ## Passages -/

namespace Batch

variable {callee : Callee} {hooks : Hooks} {s : Passage} {ss : List Passage} {ms : List Message}
  {outcomes : List (Message × Outcome)} {h h' : Host} {seen : List Sight} {o : Outcome}

namespace Passage

/-- The events of the handler and the success hook. -/
def opening (s : Passage) : List Event :=
  s.handled.events ++ (s.succeeded.map Turn.events).getD []

/-- The events of the handler and the hooks. -/
def others (s : Passage) : List Event := s.opening ++ (s.failed.map Turn.events).getD []

theorem avoids_aftermath {event : Text} (hevent : "failure_hook_failed" ≠ event)
    (hfailed : ∀ e ∈ (s.failed.map Turn.events).getD [], e.ask.Avoids event) :
    ∀ e ∈ s.aftermath, e.ask.Avoids event := by
  unfold aftermath
  refine List.forall_mem_append.2 ⟨hfailed, ?_⟩
  split
  · exact List.forall_mem_singleton.2 ⟨Value.noConfusion, fun heq => hevent (Value.text.inj heq)⟩
  · exact List.forall_mem_nil _

/-- What is seen of a passage with an outcome: if the message failed, a line that names it comes
between what is seen of the handler and the success hook, and what is seen of the failure hook. -/
inductive Seen (s : Passage) : List Sight → Prop
  | succeeded {v : Value} {h h' : Host} {seen : List Sight} (hproduced : s.produced = .ok v)
      (hshows : h.Shows s.opening h' seen) : Seen s seen
  | failed {e : Error} {h h' k k' : Host} {first last : List Sight} {line : Entries}
      (hproduced : s.produced = .error e) (hfirst : h.Shows s.opening h' first)
      (hevent : line.get? "event" = some (.text "message_processing_failed"))
      (hid : line.get? "message_id" = some (.text s.message.id))
      (hlast : k.Shows s.aftermath k' last) : Seen s (first ++ .line line :: last)

/-- **A passage is seen like that** if lines of level `info` are. -/
theorem seen_of_shows (hlevel : Level.info.reaches (h.log.levelOf Host.logger) = true)
    (hverdict : s.verdict = .ok o) (hshows : h.Shows s.events h' seen) : s.Seen seen := by
  unfold events at hshows
  obtain ⟨v, hv, -⟩ | ⟨e, t, he, hnoted, -⟩ := produced_of_verdict hverdict
  · simp only [hv, List.append_nil] at hshows
    exact .succeeded hv hshows
  · simp only [he, hnoted] at hshows
    obtain ⟨h₁, first, rest, hfirst, hrest, rfl⟩ := hshows.of_append
    obtain ⟨time, last, hlast, rfl⟩ := hrest.of_cons
    rw [← hfirst.levelOf_eq] at hlevel
    have hplain : Entry.Plain (.ofValues .error "message_processing_failed"
        [("message_id", .text s.message.id), ("error_type", .text e.cls.name),
          ("error", .text t)]) := by
      refine .intro rfl ?_
      simp [Entry.reserved, Entry.ownKeys, Entry.errorField, Text.ofString_inj]
    obtain ⟨line, hline, hevent, hvalues⟩ :=
      Host.observe_of_plain time (failureLine s.message e t) rfl hplain hlevel
    rw [hline]
    exact .failed he hfirst hevent (hvalues _ _ (by decide) Entry.value?_ofValues) hlast

/-- Nothing else is seen about an event that no handler or hook is about. -/
theorem Seen.linesOf_eq_nil {event : Text} (hseen : s.Seen seen)
    (hevent : event ∉ failureLines.map Prod.fst) (havoids : ∀ e ∈ s.others, e.ask.Avoids event) :
    linesOf event seen = [] := by
  simp only [failureLines, List.map_cons, List.map_nil, List.mem_cons, List.not_mem_nil, or_false,
    not_or] at hevent
  obtain ⟨hopening, hfailed⟩ := List.forall_mem_append.1 havoids
  cases hseen with
  | succeeded _ hshows => exact hshows.linesOf_eq_nil hopening
  | failed _ hfirst hline _ hlast =>
    have hother : line? event (.line _) = none := if_neg fun heq => by
      rw [hline] at heq
      exact hevent.1 (Value.text.inj (Option.some.inj heq)).symm
    rw [linesOf_append, hfirst.linesOf_eq_nil hopening, List.nil_append, linesOf,
      List.filterMap_cons_none hother]
    exact hlast.linesOf_eq_nil (avoids_aftermath (Ne.symm hevent.2) hfailed)

/-- The ids that are seen of a passage are that of its message, if that failed. -/
theorem Seen.told_eq (hseen : s.Seen seen)
    (havoids : ∀ e ∈ s.others, e.ask.Avoids "message_processing_failed") :
    told "message_processing_failed" "message_id" seen =
      match s.produced with
      | .ok _ => []
      | .error _ => [some (.text s.message.id)] := by
  obtain ⟨hopening, hfailed⟩ := List.forall_mem_append.1 havoids
  cases hseen with
  | succeeded hproduced hshows => rw [hproduced, told, hshows.linesOf_eq_nil hopening, List.map_nil]
  | @failed _ _ _ _ _ first last line hproduced hfirst hline hid hlast =>
    have hone : line? "message_processing_failed" (.line line) = some line := if_pos hline
    have hlast := hlast.linesOf_eq_nil (avoids_aftermath (by simp [Text.ofString_inj]) hfailed)
    unfold linesOf at hlast
    rw [hproduced, told, linesOf_append, hfirst.linesOf_eq_nil hopening, List.nil_append, linesOf,
      List.filterMap_cons_some hone, hlast, List.map_singleton, hid]

end Passage

/-- What is seen of passages is what is seen of each. -/
theorem Passages.exists_seen (hss : Passages callee hooks ms ss (.ok outcomes))
    (hlevel : Level.info.reaches (h.log.levelOf Host.logger) = true)
    (hshows : h.Shows (ss.flatMap Passage.events) h' seen) :
    ∃ parts : List (List Sight), seen = parts.flatten ∧ List.Forall₂ Passage.Seen ss parts := by
  generalize hx : (Except.ok outcomes : Except Error (List (Message × Outcome))) = x at hss
  induction hss generalizing outcomes h seen with
  | done => exact ⟨[], hshows.eq_nil, .nil⟩
  | halted => cases hx
  | @next s o ms ss y _ hverdict _ ih =>
    cases y with
    | error e => cases hx
    | ok others =>
      rw [List.flatMap_cons] at hshows
      obtain ⟨h₁, part, rest, hpart, hrest, rfl⟩ := hshows.of_append
      obtain ⟨parts, rfl, hparts⟩ := ih (by rwa [hpart.levelOf_eq]) hrest rfl
      exact ⟨part :: parts, rfl, .cons (Passage.seen_of_shows hlevel hverdict hpart) hparts⟩

/-- **What is seen of passages names the messages that failed**, in order. -/
theorem Passages.told_eq {parts : List (List Sight)}
    (hss : Passages callee hooks ms ss (.ok outcomes)) (hparts : List.Forall₂ Passage.Seen ss parts)
    (havoids : ∀ e ∈ ss.flatMap Passage.others, e.ask.Avoids "message_processing_failed") :
    told "message_processing_failed" "message_id" parts.flatten =
      (failures outcomes).map fun f => some (.text f.1.id) := by
  generalize hx : (Except.ok outcomes : Except Error (List (Message × Outcome))) = x at hss
  induction hss generalizing outcomes parts with
  | done =>
    obtain rfl := Except.ok.inj hx
    cases hparts
    rfl
  | halted => cases hx
  | @next s o ms ss y _ hverdict _ ih =>
    cases y with
    | error e => cases hx
    | ok others =>
      obtain rfl := Except.ok.inj hx
      cases hparts with
      | cons hpart hparts =>
        rw [List.flatMap_cons, List.forall_mem_append] at havoids
        rw [List.flatten_cons, told_append, hpart.told_eq havoids.1, ih hparts havoids.2 rfl]
        obtain ⟨v, hv, rfl⟩ | ⟨e, t, he, -, rfl⟩ := Passage.produced_of_verdict hverdict
        · rw [hv]
          rfl
        · rw [he]
          rfl

/-- Nothing is seen of passages about an event that no handler or hook is about. -/
theorem linesOf_parts {event : Text} {parts : List (List Sight)}
    (hparts : List.Forall₂ Passage.Seen ss parts) (hevent : event ∉ failureLines.map Prod.fst)
    (havoids : ∀ e ∈ ss.flatMap Passage.others, e.ask.Avoids event) :
    linesOf event parts.flatten = [] := by
  induction hparts with
  | nil => rfl
  | cons hpart _ ih =>
    rw [List.flatMap_cons, List.forall_mem_append] at havoids
    rw [List.flatten_cons, linesOf_append, hpart.linesOf_eq_nil hevent havoids.1, ih havoids.2]
    rfl

/-- What a hook shows are questions that it asks. -/
theorem Called.of_asksIn {α : Type} {P : Ask → Prop} {hook : Option (α → Run Unit)} {x : Option α}
    {turn : Option (Turn Unit)} (hcalled : Called hook x turn)
    (hhook : ∀ f ∈ hook, ∀ a, (f a).AsksIn P) : ∀ e ∈ (turn.map Turn.events).getD [], P e.ask := by
  cases hcalled with
  | absent | idle => exact List.forall_mem_nil _
  | called h => exact (hhook _ rfl _).of_ends h

/-- **What handler and hooks show in passages are questions that they ask.** -/
theorem asks_of_recorded {P : Ask → Prop} (hcallee : ∀ m, (callee m).AsksIn P)
    (hhooks : hooks.AskIn P)
    (h : List.Forall₂ (fun s o => o.1 = s.message ∧ Recorded callee hooks s o.2) ss outcomes) :
    ∀ e ∈ ss.flatMap Passage.others, P e.ask := by
  induction h with
  | nil => exact List.forall_mem_nil _
  | @cons s o ss outcomes hso _ ih =>
    rw [List.flatMap_cons, List.forall_mem_append]
    refine ⟨List.forall_mem_append.2 ⟨List.forall_mem_append.2 ⟨?_, ?_⟩, ?_⟩, ih⟩
    · exact (hcallee _).of_ends hso.2.handled
    · refine hso.2.succeeded.of_asksIn fun f hf => ?_
      obtain ⟨hook, hmem, rfl⟩ := Option.map_eq_some_iff.1 hf
      exact hhooks.succeeded hook hmem _
    · refine hso.2.failed.of_asksIn fun f hf => ?_
      obtain ⟨hook, hmem, rfl⟩ := Option.map_eq_some_iff.1 hf
      exact hhooks.failed hook hmem _

/-- Messages of a batch with distinct ids have distinct ids. -/
theorem DistinctIds.sublist {ns : List Message} (h : DistinctIds ms) (hsub : ns.Sublist ms) :
    DistinctIds ns := fun queueUrl =>
  ((hsub.filter (Message.isFrom queueUrl)).map Message.id).nodup (h queueUrl)

theorem failures_sublist (outcomes : List (Message × Outcome)) :
    ((failures outcomes).map Prod.fst).Sublist (outcomes.map Prod.fst) := by
  induction outcomes with
  | nil => exact List.Sublist.slnil
  | cons first rest ih =>
    obtain ⟨m, o⟩ := first
    cases o with
    | success v => exact .cons m ih
    | failure e => exact .cons_cons m ih

theorem finals_sublist (triage : Triage) (failed : List (Message × Error)) :
    (finals triage failed).Sublist (failed.map Prod.fst) := List.filter_sublist.map Prod.fst

end Batch

/-! ## Conclusions -/

namespace Processor

variable {p : Processor} {ms : List Message} {handler : Handler}
  {outcomes : List (Message × Outcome)} {handled rest : List Event}
  {x : Except Error (List Value)} {host host' : Host} {seen : List Sight}

/-- Whether in a conclusion no reconciliation is needed, or it ends well. -/
inductive Reconciles (p : Processor) (outcomes : List (Message × Outcome)) : List Event → Prop
  | unneeded {rest : List Event} (hfailures : Batch.failures outcomes = []) :
      Reconciles p outcomes rest
  | done {t last : List Event} (h : (p.reconciliation outcomes).Ends t (.ok ())) :
      Reconciles p outcomes (countLine outcomes :: (t ++ last))

/-- The lines of a conclusion after the one that counts. -/
abbrev laterLines : List (Text × Log.Level) :=
  ("batch_failures_suppressed", .debug) :: (routineLines ++ accountLines)

/-- After the line that counts come entries on single requests and on failures. -/
theorem exists_later (h : (p.conclude outcomes).Ends rest x) :
    ∃ later, rest = countLine outcomes :: later ∧ ∀ e ∈ later, e.ask.IsOwn laterLines := by
  have hreconciliation {t : List Event} {y : Except Error Unit}
      (h : (p.reconciliation outcomes).Ends t y) : ∀ e ∈ t, e.ask.IsOwn laterLines := fun e he =>
    ((Batch.asksIn_reconcile ..).of_ends h e he).mono (List.subset_cons_self ..)
  cases concludes_of_ends h with
  | acknowledged => exact ⟨[], rfl, by simp⟩
  | broken _ hbroken => exact ⟨_, rfl, hreconciliation hbroken⟩
  | suppressed _ _ _ hdone =>
    refine ⟨_, rfl, List.forall_mem_append.2 ⟨hreconciliation hdone, ?_⟩⟩
    refine List.forall_mem_singleton.2 ⟨_, _, _, rfl, ?_, ?_⟩
    · simp
    · simp [ownFields]
  | reported _ _ _ hdone | unreported _ _ hdone => exact ⟨_, rfl, hreconciliation hdone⟩

/-- The line that counts is on the batch as a whole. -/
theorem isOwn_countLine : (countLine outcomes).ask.IsOwn (routineLines ++ batchLines) := by
  refine ⟨_, _, _, rfl, ?_, ?_⟩
  · simp [batchLines]
  · simp [ownFields]

/-- What follows a reconciliation that ends well is on the batch as a whole. -/
theorem isOwn_of_done {t last : List Event} (hdone : (p.reconciliation outcomes).Ends t (.ok ()))
    (h : (p.conclude outcomes).Ends (countLine outcomes :: (t ++ last)) x) :
    ∀ e ∈ last, e.ask.IsOwn (routineLines ++ batchLines) := by
  unfold conclude at h
  obtain ⟨u, heq, hrest⟩ := Run.ends_log_bind.1 h
  obtain rfl := (List.cons.inj heq).2
  split at hrest
  · obtain ⟨hnil, -⟩ := Run.ends_pure.1 hrest
    simp [(List.append_eq_nil_iff.1 hnil).2]
  · refine Run.AsksIn.of_ends
      (.bind .lift fun _ => .ite (.bind (asksIn_log ?_ ?_) fun _ => .pure) .raise)
      ((Run.ends_bind_append hdone).1 hrest)
    · simp [batchLines]
    · simp [ownFields]

/-- **A conclusion accounts for all failures**, unless its reconciliation ends in an error. -/
theorem ledger_of_conclude (h : (p.conclude outcomes).Ends rest x)
    (hids : Batch.DistinctIds (outcomes.map Prod.fst)) (hreconciles : p.Reconciles outcomes rest)
    (hown : ∀ c ∈ calls rest, c.NamesOwn) :
    ∃ left final, left + final = (Batch.failures outcomes).length ∧
      Batch.Ledger rest left (if p.settings.deleteNonRetryable.truthy then final else 0)
        (if p.settings.deleteNonRetryable.truthy then 0 else final) := by
  have hcount : ∀ e ∈ [countLine outcomes], e.ask.IsOwn (routineLines ++ batchLines) :=
    List.forall_mem_singleton.2 isOwn_countLine
  cases hreconciles with
  | unneeded hfailures =>
    refine ⟨0, 0, by rw [hfailures]; rfl, ?_⟩
    simp only [ite_self]
    cases concludes_of_ends h with
    | acknowledged => exact .of_isOwn hcount
    | broken hne | suppressed hne | reported hne | unreported hne =>
      exact absurd hfailures hne
  | @done t last hdone =>
    have hle : (Batch.finals p.triage (Batch.failures outcomes)).length ≤
        (Batch.failures outcomes).length := by
      simpa using (Batch.finals_sublist p.triage (Batch.failures outcomes)).length_le
    refine ⟨_, _, Nat.sub_add_cancel hle, ?_⟩
    have hledger := Batch.ledger_of_reconcile hdone
      (hids.sublist ((Batch.finals_sublist ..).trans (Batch.failures_sublist outcomes)))
      fun c hc => hown c ?_
    · have hsum := hledger.append (.of_isOwn (isOwn_of_done hdone h)) (.inr rfl) (.inr rfl)
      simp only [Nat.add_zero] at hsum
      exact hsum.behind hcount
    · change c ∈ calls (t ++ last)
      rw [calls_append]
      exact List.mem_append_left _ hc

/-- Whether a line counts the messages of a batch by their outcomes. -/
structure Counts (ms : List Message) (outcomes : List (Message × Outcome)) (line : Entries) :
    Prop where
  event : line.get? "event" = some (.text "batch_processed")
  total : line.get? "total" = some (.int ms.length)
  succeeded : line.get? "succeeded" = some (.int (Batch.successes outcomes).length)
  failed : line.get? "failed" = some (.int (Batch.failures outcomes).length)
  sum : (Batch.successes outcomes).length + (Batch.failures outcomes).length = ms.length

/-- What is seen of the line that counts is that, and nothing else. -/
theorem exists_counts (time : Text) (hbatch : outcomes.map Prod.fst = ms)
    (hlevel : Log.Level.info.reaches (host.log.levelOf Host.logger) = true) :
    ∃ line, (host.observe time (countLine outcomes)).2 = [.line line] ∧
      Counts ms outcomes line := by
  have hplain : Entry.Plain (.ofValues .info "batch_processed" [("total", .int outcomes.length),
      ("succeeded", .int (Batch.successes outcomes).length),
      ("failed", .int (Batch.failures outcomes).length)]) := by
    refine .intro rfl ?_
    simp [Entry.reserved, Entry.ownKeys, Entry.errorField, Text.ofString_inj]
  obtain ⟨line, hline, hevent, hvalues⟩ :=
    Host.observe_of_plain time (countLine outcomes) rfl hplain hlevel
  have hlength : outcomes.length = ms.length := by rw [← hbatch, List.length_map]
  refine ⟨line, hline, hevent, ?_, ?_, ?_, ?_⟩
  · exact hvalues _ _ (by decide) (by rw [Entry.value?_ofValues, ← hlength]; rfl)
  · exact hvalues _ _ (by decide) Entry.value?_ofValues
  · exact hvalues _ _ (by decide) Entry.value?_ofValues
  · rw [Batch.length_successes_add, hlength]

/-- The lines that account for a batch have levels that are written when `info` is. -/
theorem reaches_of_mem {event : Text} {level : Log.Level} (hmem : (event, level) ∈ concludingLines)
    (hevent : event = "batch_processed" ∨ event ∈ accountLines.map Prod.fst) :
    level.reaches .info = true := by
  have hlines : ∀ line ∈ concludingLines,
      line.1 = "batch_processed" ∨ line.1 ∈ accountLines.map Prod.fst →
        line.2.reaches .info = true := by
    simp [concludingLines, routineLines, accountLines, batchLines, Text.ofString_inj, Level.reaches,
      Level.number]
  exact hlines _ hmem hevent

/-- What lines tell together on failures that were to be moved. -/
def redriveTold (seen : List Sight) : Int :=
  total (told "non_retryable_messages_moved" "moved" seen) +
    total (told "non_retryable_messages_moved" "failed" seen) +
    total (told "dead_letter_queue_not_configured" "message_ids" seen)

theorem redriveTold_eq {t : List Event}
    (h : ∀ k ∈ Batch.redriveKeys, told k.1 k.2 seen = said k.1 k.2 t) :
    redriveTold seen = total (Batch.redriveKeys.flatMap fun k => said k.1 k.2 t) := by
  simp only [Batch.redriveKeys, List.forall_mem_cons] at h
  obtain ⟨hmoved, hfailed, hunconfigured, -⟩ := h
  simp [redriveTold, Batch.redriveKeys, hmoved, hfailed, hunconfigured, Int.add_assoc]

/-- Whether lines account for the failures of a batch.  At most one tells what was left, and one
what was deleted without being moved. -/
structure Accounts (p : Processor) (outcomes : List (Message × Outcome)) (seen : List Sight) :
    Prop where
  left : (told "retryable_messages_left_on_queue" "count" seen).length ≤ 1
  deleted : (told "non_retryable_messages_deleted" "count" seen).length ≤ 1
  /-- What was left and what was to be moved are all failures, -/
  redriving : p.settings.deleteNonRetryable.truthy = false →
    ((Batch.failures outcomes).length : Int) =
      total (told "retryable_messages_left_on_queue" "count" seen) + redriveTold seen
  /-- or what was left and what was deleted. -/
  deleting : p.settings.deleteNonRetryable.truthy = true →
    ((Batch.failures outcomes).length : Int) =
      total (told "retryable_messages_left_on_queue" "count" seen) +
        total (told "non_retryable_messages_deleted" "count" seen)

/-- What is seen of a conclusion accounts for all failures, unless its reconciliation ends in an
error. -/
theorem accounts_of_conclude (h : (p.conclude outcomes).Ends rest x)
    (hlevel : Log.Level.info.reaches (host.log.levelOf Host.logger) = true)
    (hshows : host.Shows rest host' seen) (hids : Batch.DistinctIds (outcomes.map Prod.fst))
    (hreconciles : p.Reconciles outcomes rest) (hown : ∀ c ∈ calls rest, c.NamesOwn) :
    p.Accounts outcomes seen := by
  obtain ⟨left, final, hsum, hledger⟩ := ledger_of_conclude h hids hreconciles hown
  have htold (event key : Text) (hevent : event ∈ accountLines.map Prod.fst)
      (hkey : key ∉ Entry.ownKeys) (hnone : none ∉ said event key rest) :
      told event key seen = said event key rest := by
    refine hshows.told_eq hlevel (fun e he => ?_) hkey hnone
    exact ((p.asksIn_conclude outcomes).of_ends h e he).plain fun level hmem =>
      reaches_of_mem hmem (.inr hevent)
  have hcounts (event key : Text) (n : Nat) (hevent : event ∈ accountLines.map Prod.fst)
      (hkey : key ∉ Entry.ownKeys) (hsaid : said event key rest = counts n) :
      told event key seen = counts n := by
    rw [htold event key hevent hkey (by rw [hsaid]; exact none_notMem_counts n), hsaid]
  have hleft := hcounts _ _ _ (by simp [accountLines]) (by decide) hledger.left
  have hdeleted := hcounts _ _ _ (by simp [accountLines]) (by decide) hledger.deleted
  have hredriven : redriveTold seen =
      (if p.settings.deleteNonRetryable.truthy then 0 else final : Nat) := by
    have hkeys : ∀ k ∈ Batch.redriveKeys,
        k.1 ∈ accountLines.map Prod.fst ∧ k.2 ∉ Entry.ownKeys := by decide
    rw [← hledger.redriven]
    exact redriveTold_eq fun k hk =>
      htold k.1 k.2 (hkeys k hk).1 (hkeys k hk).2 (hledger.complete k hk)
  refine ⟨?_, ?_, fun hflag => ?_, fun hflag => ?_⟩
  · rw [hleft]
    exact length_counts_le left
  · rw [hdeleted]
    exact length_counts_le _
  · rw [hleft, hredriven, total_counts, if_neg (by simp [hflag]), ← hsum]
    exact Int.natCast_add ..
  · rw [hleft, hdeleted, total_counts, total_counts, if_pos hflag, ← hsum]
    exact Int.natCast_add ..

/-! ## A whole batch -/

/-- Whether what is seen of a batch accounts for its messages: what is seen while they are handled,
the line that counts them, and what is seen after that. -/
structure Audit (p : Processor) (ms : List Message) (outcomes : List (Message × Outcome))
    (resolving : List Event) (callee : Callee) (ss : List Batch.Passage) (rest : List Event)
    (before : List Sight) (line : Entries) (after : List Sight) : Prop where
  /-- Each message had its passage, in order, and is recorded as that went. -/
  messages : ss.map Batch.Passage.message = ms
  recorded : List.Forall₂ (fun s o => o.1 = s.message ∧ Batch.Recorded callee p.hooks s o.2)
    ss outcomes
  /-- In each passage of a failure one line names the message. -/
  passages : ∃ (host host' : Host) (start : List Sight) (parts : List (List Sight)),
    host.Shows resolving host' start ∧ before = start ++ parts.flatten ∧
      List.Forall₂ Batch.Passage.Seen ss parts
  /-- If nothing else is about that event, the failures are named in order. -/
  named : (∀ e ∈ resolving ++ ss.flatMap Batch.Passage.others,
      e.ask.Avoids "message_processing_failed") →
    told "message_processing_failed" "message_id" before =
      (Batch.failures outcomes).map fun f => some (.text f.1.id)
  /-- The line counts the messages by their outcomes. -/
  counts : Counts ms outcomes line
  /-- It is the only one, if nothing else before it is about that event, -/
  first : (∀ e ∈ resolving ++ ss.flatMap Batch.Passage.others, e.ask.Avoids "batch_processed") →
    linesOf "batch_processed" before = []
  last : linesOf "batch_processed" after = []
  /-- and no failure is named after it. -/
  later : linesOf "message_processing_failed" after = []
  /-- What is seen from there on accounts for the failures, unless the reconciliation ends in an
  error. -/
  accounts : p.Reconciles outcomes rest → (∀ c ∈ calls rest, c.NamesOwn) →
    p.Accounts outcomes (.line line :: after)

/-- **The log accounts for every message.** -/
theorem log_accounts (hids : Batch.DistinctIds ms)
    (hlevel : Log.Level.info.reaches (host.log.levelOf Host.logger) = true)
    (hhandling : (p.handling ms handler).Ends handled (.ok outcomes))
    (h : (p.process ms handler).Ends (handled ++ rest) x)
    (hshows : host.Shows (handled ++ rest) host' seen) :
    ∃ resolving callee ss before line after, handler.resolve.Ends resolving (.ok callee) ∧
      handled = resolving ++ ss.flatMap Batch.Passage.events ∧
      seen = before ++ .line line :: after ∧
      p.Audit ms outcomes resolving callee ss rest before line after := by
  have hconclude := (ends_process_append hhandling).1 h
  obtain ⟨e, -, heq⟩ | ⟨resolving, callee, ss, hresolve, hss, rfl⟩ := passages_of_handling hhandling
  · cases heq
  obtain ⟨hmessages, hbatch, -⟩ := hss.messages_eq
  obtain ⟨host₂, before, concluding, hbefore, hconcluding, rfl⟩ := hshows.of_append
  obtain ⟨host₁, start, shown, hstart, hshown, rfl⟩ := hbefore.of_append
  have hlevel₁ : Log.Level.info.reaches (host₁.log.levelOf Host.logger) = true := by
    rwa [hstart.levelOf_eq]
  have hlevel₂ : Log.Level.info.reaches (host₂.log.levelOf Host.logger) = true := by
    rwa [hbefore.levelOf_eq]
  obtain ⟨parts, rfl, hparts⟩ := hss.exists_seen hlevel₁ hshown
  have haccounts := accounts_of_conclude hconclude hlevel₂ hconcluding (by rwa [hbatch])
  obtain ⟨later, rfl, hown⟩ := exists_later hconclude
  obtain ⟨time, after, hafter, rfl⟩ := hconcluding.of_cons
  obtain ⟨line, hline, hcounts⟩ := exists_counts time hbatch hlevel₂
  have hnone (event : Text) (hother : event ∉ laterLines.map Prod.fst) : linesOf event after = [] :=
    hafter.linesOf_eq_nil fun e he => (hown e he).avoids hother
  rw [hline] at haccounts ⊢
  refine ⟨resolving, callee, ss, _, line, after, hresolve, rfl, rfl, ?_⟩
  refine ⟨hmessages, hss.recorded, ⟨_, _, _, _, hstart, rfl, hparts⟩, fun havoids => ?_, hcounts,
    fun havoids => ?_, ?_, ?_, haccounts⟩
  · obtain ⟨hfirst, hothers⟩ := List.forall_mem_append.1 havoids
    rw [told_append, told, hstart.linesOf_eq_nil hfirst, List.map_nil, List.nil_append,
      hss.told_eq hparts hothers]
  · obtain ⟨hfirst, hothers⟩ := List.forall_mem_append.1 havoids
    have hevent : ("batch_processed" : Text) ∉ failureLines.map Prod.fst := by
      simp [failureLines, Text.ofString_inj]
    rw [linesOf_append, hstart.linesOf_eq_nil hfirst, Batch.linesOf_parts hparts hevent hothers]
    rfl
  · exact hnone _ (by simp [laterLines, routineLines, accountLines, Text.ofString_inj])
  · exact hnone _ (by simp [laterLines, routineLines, accountLines, Text.ofString_inj])

end Processor

namespace Sample

/-- A host that writes lines of level `info`. -/
def host : Host := ⟨.start .info, false⟩

end Sample

namespace Processor

/-- A batch of which one message is moved and one cannot be: both are named, and accounted for. -/
theorem log_accounts_sample : ∃ handled rest x host' seen before line after,
    Batch.DistinctIds Sample.orders ∧
      Log.Level.info.reaches (Sample.host.log.levelOf Host.logger) = true ∧
      (Sample.processor.handling Sample.orders Consumer.handler).Ends handled
        (.ok Sample.outcomes) ∧
      (Sample.processor.process Sample.orders Consumer.handler).Ends (handled ++ rest) x ∧
      Sample.host.Shows (handled ++ rest) host' seen ∧ seen = before ++ .line line :: after ∧
      told "message_processing_failed" "message_id" before =
        [some (.text "b"), some (.text "c")] ∧
      line.get? "failed" = some (.int 2) ∧
      2 = total (told "retryable_messages_left_on_queue" "count" (.line line :: after)) +
        redriveTold (.line line :: after) := by
  have hfailures : Batch.failures Sample.outcomes ≠ [] := by
    simp [Batch.failures, Sample.outcomes]
  have hdone := Run.ends_exec (.service Sample.service)
    (Sample.processor.reconciliation Sample.outcomes) ()
  have hend : ((Sample.processor.reconciliation Sample.outcomes).exec
      (.service Sample.service) ()).2.1 = .ok () := by decide +kernel
  have hown : ∀ c ∈ calls ((Sample.processor.reconciliation Sample.outcomes).exec
      (.service Sample.service) ()).1, c.NamesOwn := by decide +kernel
  rw [hend] at hdone
  generalize ((Sample.processor.reconciliation Sample.outcomes).exec
    (.service Sample.service) ()).1 = t at hdone hown
  obtain ⟨last, x, hconclude, hcalls⟩ := ends_of_reconciliation hfailures hdone
  obtain ⟨handled, hhandling⟩ := Sample.exists_handled
  have h := ends_process.2 ⟨handled, _, _, rfl, .concluded hhandling hconclude⟩
  have hshows := Host.shows_observeAll [] Sample.host
    (handled ++ countLine Sample.outcomes :: (t ++ last))
  obtain ⟨resolving, callee, ss, before, line, after, hresolve, -, hseen, haudit⟩ :=
    log_accounts Sample.distinctIds rfl hhandling h hshows
  refine ⟨handled, _, x, _, _, before, line, after, Sample.distinctIds, rfl, hhandling, h, hshows,
    hseen, haudit.named ?_, haudit.counts.failed, ?_⟩
  · obtain ⟨rfl, heq⟩ : resolving = [] ∧ _ := hresolve
    obtain rfl := Except.ok.inj heq
    refine Batch.asks_of_recorded (fun m => ?_) ?_ haudit.recorded
    · exact Consumer.asksIn_handleRecord fun keys => by
        simp [Ask.Avoids, Log.Entry.ofValues, Text.ofString_inj]
    · constructor
      · rintro hook ⟨rfl⟩ m v
        exact .question trivial fun _ => .ofExcept
      · rintro hook ⟨rfl⟩ m e
        exact .question trivial fun _ => .ofExcept
  · have haccounts := haudit.accounts (.done hdone) fun c hc => hown c ?_
    · exact haccounts.redriving (by decide +kernel)
    · change c ∈ calls (t ++ last) at hc
      rwa [calls_append, hcalls, List.append_nil] at hc

end Processor
end PartialBatch
