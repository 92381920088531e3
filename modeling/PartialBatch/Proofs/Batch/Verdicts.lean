/-
# Verdicts on errors

Which failures are moved away is decided by the verdicts on their errors, and errors are looked at
nowhere else before the report (`reconcile_congr`). An error that matches no configured kind has a
verdict exactly if its code can be compared with those of a list:

| code of an error that matches no kind | verdict | the cleanup |
| --- | --- | --- |
| none, null, a text, a number, a truth value, bytes | retryable | as if there were no code |
| a list, an object | none: a `TypeError` | none: the batch ends in that |

The verdict is asked for although no code may be configured, and before anything is deleted, so one
such failure keeps all successes of the batch on their queues (`unlisted_error_disturbs`).
-/

import PartialBatch.Proofs.Batch.Exactness
import Mathlib.Data.List.Forall2

namespace PartialBatch

/-! ## Kinds and codes -/

/-- Whether an error is of a kind. -/
def Kind.Matches (kind : Kind) (e : Error) : Prop :=
  match kind with
  | .errors cls => e.isA cls = true
  | .code tag => e.code? = some (.text tag)
  | _ => False

instance (kind : Kind) (e : Error) : Decidable (kind.Matches e) :=
  match kind with
  | .errors cls => inferInstanceAs (Decidable (e.isA cls = true))
  | .code tag => inferInstanceAs (Decidable (e.code? = some (.text tag)))
  | .type _ | .thrown _ | .value _ => inferInstanceAs (Decidable False)

/-- Whether the code of an error, if it has one, can be compared with listed codes. -/
def Error.isComparable (e : Error) : Bool :=
  match e.code? with
  | none => true
  | some code => code.member?.isSome

/-- Whether an error is like another but for the code, and has none that counts. -/
structure Error.Uncoded (e e' : Error) : Prop where
  cls : e'.cls = e.cls
  code : e'.code? = none ∨ e'.code? = some .null

theorem Error.Uncoded.isComparable {e e' : Error} (h : e.Uncoded e') : e'.isComparable = true := by
  unfold Error.isComparable
  rcases h.code with hcode | hcode
  · rw [hcode]
  · rw [hcode]
    rfl

namespace Triage

variable {triage : Triage} {kinds : List Kind} {e e' : Error}

/-- A triage lists the classes and the codes of its kinds. -/
theorem mem_of_ofKinds (h : ofKinds kinds = .ok triage) :
    (∀ cls, cls ∈ triage.classes ↔ .errors cls ∈ kinds) ∧
      ∀ tag, tag ∈ triage.codes ↔ .code tag ∈ kinds := by
  induction kinds generalizing triage with
  | nil =>
    obtain rfl := Except.ok.inj h
    simp
  | cons kind rest ih =>
    cases hrest : ofKinds rest with
    | error e =>
      cases kind with
      | errors | code =>
        rw [ofKinds, hrest] at h
        cases h
      | type | thrown | value =>
        obtain ⟨t, -, h⟩ := bind_eq_ok.1 h
        cases h
    | ok others =>
      obtain ⟨hclasses, hcodes⟩ := ih hrest
      cases kind with
      | errors cls =>
        rw [ofKinds, hrest] at h
        obtain rfl := Except.ok.inj h
        simp [hclasses, hcodes]
      | code tag =>
        rw [ofKinds, hrest] at h
        obtain rfl := Except.ok.inj h
        simp [hclasses, hcodes]
      | type | thrown | value =>
        obtain ⟨t, -, h⟩ := bind_eq_ok.1 h
        cases h

/-- **An error that matches no kind is retryable if its code can be compared**, and otherwise has no
verdict. -/
theorem classify_of_unmatched (h : ofKinds kinds = .ok triage)
    (hkinds : ∀ kind ∈ kinds, ¬kind.Matches e) :
    triage.classify e =
      if e.isComparable then .ok .retryable else .error (.unworded .typeError) := by
  obtain ⟨hclasses, hcodes⟩ := mem_of_ofKinds h
  have hclass : triage.classes.any e.isA = false := by
    rw [List.any_eq_false]
    exact fun cls hcls => hkinds _ ((hclasses cls).1 hcls)
  unfold classify Error.isComparable
  rw [if_neg (by simp [hclass])]
  cases hcode : e.code? with
  | none => rfl
  | some code =>
    cases code with
    | text tag =>
      have hlisted : tag ∉ triage.codes := fun htag => hkinds _ ((hcodes tag).1 htag) hcode
      exact congrArg Except.ok (if_neg hlisted)
    | _ => rfl

/-- Without a code that counts, an error is of the kinds that its class says. -/
theorem not_matches_of_uncoded (huncoded : e.Uncoded e') (hkinds : ∀ kind ∈ kinds, ¬kind.Matches e) :
    ∀ kind ∈ kinds, ¬kind.Matches e' := by
  intro kind hkind hmatches
  cases kind with
  | errors cls =>
    change e'.cls.isA cls = true at hmatches
    rw [huncoded.cls] at hmatches
    exact hkinds _ hkind hmatches
  | code tag =>
    rcases huncoded.code with hcode | hcode
    · cases hcode.symm.trans hmatches
    · cases hcode.symm.trans hmatches
  | _ => exact hmatches

/-- An error with a code that can be compared has a verdict. -/
theorem exists_isNonRetryable (h : e.isComparable = true) :
    ∃ final, triage.isNonRetryable e = .ok final := by
  unfold isNonRetryable classify
  unfold Error.isComparable at h
  split
  · exact ⟨_, rfl⟩
  · split
    · exact ⟨_, rfl⟩
    · exact ⟨_, rfl⟩
    · exact ⟨_, rfl⟩
    · rename_i code hcode
      rw [hcode] at h
      rw [if_pos h]
      exact ⟨_, rfl⟩

/-- Where there is no verdict, there is a `TypeError`. -/
theorem isNonRetryable_eq_error {f : Error} (h : triage.isNonRetryable e = .error f) :
    f = .unworded .typeError := by
  unfold isNonRetryable classify at h
  split at h
  · cases h
  · split at h
    · cases h
    · cases h
    · cases h
    · split at h
      · cases h
      · exact (Except.error.inj h).symm

end Triage

/-! ## Verdicts on the failures of a batch -/

namespace Batch

variable {settings : Settings} {triage : Triage} {succeeded : List Message}
  {failed failed' : List (Message × Error)} {before after : List (Message × Outcome)} {m : Message}
  {e e' : Error}

/-- If every failure has a verdict, the messages to move are known. -/
theorem nonRetryable_of_verdicts (h : ∀ f ∈ failed, ∃ final, triage.isNonRetryable f.2 = .ok final) :
    nonRetryable triage failed = .ok (finals triage failed) := by
  have hok : ∃ final, nonRetryable triage failed = .ok final := by
    induction failed with
    | nil => exact ⟨[], rfl⟩
    | cons f rest ih =>
      obtain ⟨final, hfinal⟩ := h f (List.mem_cons_self ..)
      obtain ⟨others, hothers⟩ := ih fun g hg => h g (List.mem_cons_of_mem _ hg)
      refine ⟨if final then f.1 :: others else others, ?_⟩
      rw [nonRetryable, hfinal, hothers]
      rfl
  obtain ⟨final, hfinal⟩ := hok
  rw [hfinal, nonRetryable_eq_ok hfinal]

/-- If a failure has no verdict, they are not. -/
theorem nonRetryable_eq_error {f : Message × Error} {err : Error} (hf : f ∈ failed)
    (herror : triage.isNonRetryable f.2 = .error err) :
    nonRetryable triage failed = .error (.unworded .typeError) := by
  induction failed with
  | nil => simp at hf
  | cons g rest ih =>
    unfold nonRetryable
    cases hg : triage.isNonRetryable g.2 with
    | error err' => exact congrArg Except.error (Triage.isNonRetryable_eq_error hg)
    | ok final =>
      rcases List.mem_cons.1 hf with rfl | hf
      · cases herror.symm.trans hg
      · rw [ih hf]
        rfl

/-- **A reconciliation looks at the verdicts on errors only.** -/
theorem reconcile_congr (h : List.Forall₂ (fun f g => f.1 = g.1 ∧
      triage.isNonRetryable f.2 = triage.isNonRetryable g.2) failed failed') :
    reconcile settings triage succeeded failed = reconcile settings triage succeeded failed' := by
  have hfinal : nonRetryable triage failed = nonRetryable triage failed' := by
    induction h with
    | nil => rfl
    | cons hfg _ ih => rw [nonRetryable, nonRetryable, hfg.1, hfg.2, ih]
  unfold reconcile
  rw [hfinal, h.length_eq]

theorem successes_append_failure :
    successes (before ++ (m, .failure e) :: after) = successes before ++ successes after := by
  simp [successes, List.filterMap_append]

theorem failures_append_failure : failures (before ++ (m, .failure e) :: after) =
    failures before ++ (m, e) :: failures after := by
  simp [failures, List.filterMap_append]

end Batch

/-! ## Courses of a batch -/

namespace Processor

variable {p : Processor} {settings : Settings} {hooks : Hooks} {ms : List Message}
  {handler : Handler} {outcomes outcomes' before after : List (Message × Outcome)} {m : Message}
  {e e' : Error} {handled rest : List Event} {cs : List Call} {x : Except Error (List Value)}

/-- The same verdicts, the same reconciliation. -/
theorem reconciliation_congr (h : p.triage.isNonRetryable e = p.triage.isNonRetryable e') :
    p.reconciliation (before ++ (m, .failure e) :: after) =
      p.reconciliation (before ++ (m, .failure e') :: after) := by
  unfold reconciliation
  rw [Batch.successes_append_failure, Batch.successes_append_failure,
    Batch.failures_append_failure, Batch.failures_append_failure]
  refine Batch.reconcile_congr ?_
  have hself (failed : List (Message × Error)) : List.Forall₂ (fun f g => f.1 = g.1 ∧
      p.triage.isNonRetryable f.2 = p.triage.isNonRetryable g.2) failed failed :=
    List.forall₂_same.2 fun _ _ => ⟨rfl, rfl⟩
  exact List.rel_append (hself _) (.cons ⟨rfl, h⟩ (hself _))

/-- The same reconciliation, the same calls after the outcomes. -/
theorem exists_conclusion_of_reconciliation_eq (hfailures : Batch.failures outcomes' ≠ [])
    (heq : p.reconciliation outcomes = p.reconciliation outcomes')
    (h : (p.conclude outcomes).Ends rest x) :
    Batch.failures outcomes = [] ∨ ∃ rest' x', (p.conclude outcomes').Ends rest' x' ∧
      calls rest' = calls rest := by
  by_cases hnone : Batch.failures outcomes = []
  · exact .inl hnone
  obtain ⟨u, stop, hreconciliation, hcalls, -⟩ := exists_reconciliation h hnone
  rw [heq] at hreconciliation
  rw [← hcalls]
  cases stop with
  | some f =>
    refine .inr ⟨countLine outcomes' :: u, .error f, ?_, rfl⟩
    unfold conclude
    refine Run.ends_log_bind.2 ⟨u, rfl, ?_⟩
    rw [if_neg fun hempty => hfailures (List.isEmpty_iff.1 hempty)]
    exact Run.ends_bind.2 (.inl ⟨f, hreconciliation, rfl⟩)
  | none =>
    obtain ⟨last, x', hconclude, hlast⟩ := ends_of_reconciliation hfailures hreconciliation
    refine .inr ⟨_, x', hconclude, ?_⟩
    rw [countLine, calls_log, calls_append, hlast, List.append_nil]

/-- The calls that a batch may make after its outcomes are the same for errors with the same
verdict. -/
theorem exists_conclusion_iff (h : p.triage.isNonRetryable e = p.triage.isNonRetryable e') :
    (∃ rest x, (p.conclude (before ++ (m, .failure e) :: after)).Ends rest x ∧ calls rest = cs) ↔
      ∃ rest x, (p.conclude (before ++ (m, .failure e') :: after)).Ends rest x ∧
        calls rest = cs := by
  have hfailures {f : Error} : Batch.failures (before ++ (m, .failure f) :: after) ≠ [] := by
    simp [Batch.failures_append_failure]
  constructor
  · rintro ⟨rest, x, hconclude, rfl⟩
    exact (exists_conclusion_of_reconciliation_eq hfailures (reconciliation_congr h)
      hconclude).resolve_left hfailures
  · rintro ⟨rest, x, hconclude, rfl⟩
    exact (exists_conclusion_of_reconciliation_eq hfailures (reconciliation_congr h).symm
      hconclude).resolve_left hfailures

/-- An error without verdict ends a batch before the first call. -/
theorem ends_of_no_verdict {f : Error} (hm : (m, .failure e) ∈ outcomes)
    (herror : p.triage.isNonRetryable e = .error f) (h : (p.conclude outcomes).Ends rest x) :
    calls rest = [] ∧ x = .error (.unworded .typeError) := by
  have hfailed : (m, e) ∈ Batch.failures outcomes := Batch.mem_failures.2 hm
  have hnone := Batch.nonRetryable_eq_error hfailed herror
  have hreconciliation {t : List Event} {y : Except Error Unit}
      (h : (p.reconciliation outcomes).Ends t y) : t = [] ∧ y = .error (.unworded .typeError) := by
    unfold reconciliation Batch.reconcile at h
    rw [hnone] at h
    exact h
  obtain ⟨u, stop, hends, hcalls, rfl⟩ := exists_reconciliation h (List.ne_nil_of_mem hfailed)
  obtain ⟨rfl, hstop⟩ := hreconciliation hends
  cases stop with
  | some g =>
    obtain rfl := Except.error.inj hstop
    exact ⟨hcalls.symm, rfl⟩
  | none => cases hstop

/-- **An error that matches no kind is left alone if its code can be compared**: it is retryable,
and the batch may make exactly the calls that it may make for an error of the same class without a
code. Otherwise it has no verdict, and the batch ends in a `TypeError` without a call. -/
theorem unlisted_error_left (hmake : Processor.make settings hooks = .ok p)
    (hkinds : ∀ kind ∈ settings.kinds, ¬kind.Matches e) :
    (e.isComparable = true → p.triage.classify e = .ok .retryable ∧
      ∀ e', e.Uncoded e' → ∀ ms ms' handler handler' handled handled' before after m,
        (p.handling ms handler).Ends handled (.ok (before ++ (m, .failure e) :: after)) →
        (p.handling ms' handler').Ends handled' (.ok (before ++ (m, .failure e') :: after)) →
        ∀ cs, (∃ rest x, (p.process ms handler).Ends (handled ++ rest) x ∧ calls rest = cs) ↔
          ∃ rest x, (p.process ms' handler').Ends (handled' ++ rest) x ∧ calls rest = cs) ∧
    (e.isComparable = false → p.triage.classify e = .error (.unworded .typeError) ∧
      ∀ ms handler handled outcomes m,
        (p.handling ms handler).Ends handled (.ok outcomes) → (m, .failure e) ∈ outcomes →
        ∀ rest x, (p.process ms handler).Ends (handled ++ rest) x →
          calls rest = [] ∧ x = .error (.unworded .typeError)) := by
  obtain ⟨triage, htriage, rfl⟩ : ∃ triage, Triage.ofKinds settings.kinds = .ok triage ∧
      p = ⟨settings, triage, hooks⟩ := by
    unfold make at hmake
    cases htriage : Triage.ofKinds settings.kinds with
    | error f => rw [htriage] at hmake; cases hmake
    | ok triage =>
      rw [htriage] at hmake
      exact ⟨triage, rfl, (Except.ok.inj hmake).symm⟩
  have hverdict := Triage.classify_of_unmatched htriage hkinds
  refine ⟨fun hcomparable => ?_, fun hcomparable => ?_⟩
  · rw [if_pos hcomparable] at hverdict
    refine ⟨hverdict, fun e' huncoded ms ms' handler handler' handled handled' before after m
      hhandling hhandling' cs => ?_⟩
    have hverdict' := Triage.classify_of_unmatched htriage
      (Triage.not_matches_of_uncoded huncoded hkinds)
    rw [if_pos huncoded.isComparable] at hverdict'
    have hsame : triage.isNonRetryable e = triage.isNonRetryable e' := by
      unfold Triage.isNonRetryable
      rw [hverdict, hverdict']
    simp only [ends_process_append hhandling, ends_process_append hhandling']
    exact exists_conclusion_iff hsame
  · rw [if_neg (by simp [hcomparable])] at hverdict
    refine ⟨hverdict, fun ms handler handled outcomes m hhandling hm rest x h => ?_⟩
    have herror : triage.isNonRetryable e = .error (.unworded .typeError) := by
      unfold Triage.isNonRetryable
      rw [hverdict]
      rfl
    exact ends_of_no_verdict hm herror ((ends_process_append hhandling).1 h)

end Processor

namespace Sample

/-- An error that is no malformed record, with a code on it. -/
def marked (code : Option Value) : Error := .ordinary .runtimeError [.text "boom"] [] code

/-- A handler that raises it for every message but `a`. -/
def marking (code : Option Value) : Handler :=
  .object none
    (some ⟨fun m => if m.id = "a" then .done .null else .raise (marked code), .done ()⟩) (.ok "marking")

/-- The messages `a` and `b`. -/
def pair : List Message := orders.take 2

/-- Their outcomes with that handler. -/
def pairOutcomes (code : Option Value) : List (Message × Outcome) :=
  [(order "a" "\x7b\x7d", .success .null), (order "b" "[]", .failure (marked code))]

theorem exists_pair_handled (code : Option Value) :
    ∃ t, (processor.handling pair (marking code)).Ends t (.ok (pairOutcomes code)) := by
  have h := Run.ends_exec (.service service) (processor.handling pair (marking code)) ()
  have houtcomes : ((processor.handling pair (marking code)).exec (.service service) ()).2.1 =
      .ok (pairOutcomes code) := rfl
  rw [houtcomes] at h
  exact ⟨_, h⟩

/-- The kinds of the consumer. -/
def kinds : List Kind := (Consumer.settings []).kinds

/-- A code that cannot be compared. -/
def incomparable : Value := .list [.text "x"]

end Sample

namespace Processor

/-- A number is a code that can be compared, and a list is none. -/
theorem unlisted_error_left_sample :
    Processor.make (Consumer.settings []) Sample.processor.hooks = .ok Sample.processor ∧
      ((∀ kind ∈ Sample.kinds, ¬kind.Matches (Sample.marked (some (.int 404)))) ∧
        Sample.processor.triage.classify (Sample.marked (some (.int 404))) = .ok .retryable ∧
        ∃ handled handled', ∀ cs,
          (∃ rest x, (Sample.processor.process Sample.pair
            (Sample.marking (some (.int 404)))).Ends (handled ++ rest) x ∧ calls rest = cs) ↔
          ∃ rest x, (Sample.processor.process Sample.pair (Sample.marking none)).Ends
            (handled' ++ rest) x ∧ calls rest = cs) ∧
      (∀ kind ∈ Sample.kinds, ¬kind.Matches (Sample.marked (some Sample.incomparable))) ∧
        Sample.processor.triage.classify (Sample.marked (some Sample.incomparable)) =
          .error (.unworded .typeError) := by
  have hmake : Processor.make (Consumer.settings []) Sample.processor.hooks =
      .ok Sample.processor := rfl
  have hnumber : ∀ kind ∈ Sample.kinds, ¬kind.Matches (Sample.marked (some (.int 404))) := by
    decide +kernel
  have hlist : ∀ kind ∈ Sample.kinds, ¬kind.Matches (Sample.marked (some Sample.incomparable)) := by
    decide +kernel
  obtain ⟨hverdict, hcalls⟩ := (unlisted_error_left hmake hnumber).1 rfl
  obtain ⟨handled, hhandling⟩ := Sample.exists_pair_handled (some (.int 404))
  obtain ⟨handled', hhandling'⟩ := Sample.exists_pair_handled none
  have hcs := hcalls (Sample.marked none) ⟨rfl, .inl rfl⟩ _ _ _ _ handled handled'
    [(Sample.order "a" "\x7b\x7d", .success .null)] [] (Sample.order "b" "[]") hhandling hhandling'
  exact ⟨hmake, ⟨hnumber, hverdict, handled, handled', hcs⟩, hlist,
    ((unlisted_error_left hmake hlist).2 rfl).1⟩

/-- **An error that matches no kind can end the cleanup.** With a list for its code, the error of `b`
has no verdict, and `a` stays on its queue; without a code, `a` is deleted. -/
theorem unlisted_error_disturbs :
    Processor.make (Consumer.settings []) Sample.processor.hooks = .ok Sample.processor ∧
      (∀ kind ∈ Sample.kinds, ¬kind.Matches (Sample.marked (some Sample.incomparable))) ∧
      (∃ handled rest,
        (Sample.processor.handling Sample.pair (Sample.marking (some Sample.incomparable))).Ends
          handled (.ok (Sample.pairOutcomes (some Sample.incomparable))) ∧
        (Sample.processor.process Sample.pair (Sample.marking (some Sample.incomparable))).Ends
          (handled ++ rest) (.error (.unworded .typeError)) ∧ calls rest = []) ∧
      ∃ handled rest,
        (Sample.processor.handling Sample.pair (Sample.marking none)).Ends handled
          (.ok (Sample.pairOutcomes none)) ∧
        (Sample.processor.process Sample.pair (Sample.marking none)).Ends (handled ++ rest)
          (.error (.reported [(Sample.order "b" "[]", Sample.marked none)] [.null])) ∧
        (calls rest).map Call.request = Sample.requests.take 1 := by
  have hconclude (code : Option Value) := Run.ends_exec (.service Sample.service)
    (Sample.processor.conclude (Sample.pairOutcomes code)) ()
  have hlist : ((Sample.processor.conclude (Sample.pairOutcomes (some Sample.incomparable))).exec
      (.service Sample.service) ()).2.1 = .error (.unworded .typeError) := by decide +kernel
  have hnone : ((Sample.processor.conclude (Sample.pairOutcomes none)).exec
      (.service Sample.service) ()).2.1 =
        .error (.reported [(Sample.order "b" "[]", Sample.marked none)] [.null]) := by decide +kernel
  obtain ⟨handled, hhandling⟩ := Sample.exists_pair_handled (some Sample.incomparable)
  obtain ⟨handled', hhandling'⟩ := Sample.exists_pair_handled none
  refine ⟨rfl, by decide +kernel, ⟨handled, _, hhandling,
    (ends_process_append hhandling).2 (hlist ▸ hconclude _), by decide +kernel⟩, handled', _,
    hhandling', (ends_process_append hhandling').2 (hnone ▸ hconclude _), by decide +kernel⟩

end Processor
end PartialBatch
