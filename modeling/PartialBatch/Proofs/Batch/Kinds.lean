/-
# Kinds of errors

A list of kinds says which errors are not retryable, and the triage made from it says no more
than that (`classification_exact`): an error is one of them if it is of a listed class or of one
that descends from it, or carries a listed code.

| change | what becomes of the verdict |
| --- | --- |
| the kinds in another order, or one more than once | the same |
| two lists one after the other | not retryable if one of the two says so |
| more kinds, an ancestor in place of a class | never retryable where it was not |
| another error of the same class with the same code | the same |

All of it follows from the verdict in closed form (`judge_eq`): whether some kind of the list
matches the error. What cannot be used as a kind is refused when the triage is made, the first of
them by name, so it plays no part in a verdict (`ofKinds_eq_error`).

A class descends from all the classes below which it is declared, and from theirs; its name plays no
part, so two classes of one name are apart (`ErrorClass.isA_iff`).
-/

import PartialBatch.Proofs.Batch.Verdicts
import Mathlib.Logic.Relation

namespace PartialBatch

/-! ## Classes -/

namespace ErrorClass

variable {c d : ErrorClass}

/-- Whether a class stands below another, directly or further down. -/
def DescendsFrom (c d : ErrorClass) : Prop := Relation.TransGen (fun c d => d ∈ c.bases) c d

/-- A class descends from its bases, and from what they descend from. -/
theorem descendsFrom_iff : c.DescendsFrom d ↔ ∃ base ∈ c.bases, base = d ∨ base.DescendsFrom d := by
  constructor
  · intro h
    obtain ⟨base, hbase, hrest⟩ := Relation.TransGen.head'_iff.1 h
    exact ⟨base, hbase, (Relation.reflTransGen_iff_eq_or_transGen.1 hrest).imp_left Eq.symm⟩
  · rintro ⟨base, hbase, h⟩
    refine Relation.TransGen.head'_iff.2 ⟨base, hbase, ?_⟩
    exact Relation.reflTransGen_iff_eq_or_transGen.2 (h.imp_left Eq.symm)

mutual

/-- **An error of a class is an error of that class and of those from which it descends**, and of no
other. -/
theorem isA_iff : (c : ErrorClass) → ∀ {d}, c.isA d = true ↔ c = d ∨ c.DescendsFrom d
  | root, d => by
    rw [isA, descendsFrom_iff]
    simp [bases]
  | declared declaration base others, d => by
    rw [isA, descendsFrom_iff, Bool.or_eq_true, decide_eq_true_eq, Bool.or_eq_true, isA_iff base,
      anyIsA_iff others, bases]
    simp only [List.mem_cons, exists_eq_or_imp]

theorem anyIsA_iff : (cs : List ErrorClass) →
    ∀ {d}, anyIsA cs d = true ↔ ∃ c ∈ cs, c = d ∨ c.DescendsFrom d
  | [], d => by simp [anyIsA]
  | c :: cs, d => by
    rw [anyIsA, Bool.or_eq_true, isA_iff c, anyIsA_iff cs]
    simp only [List.mem_cons, exists_eq_or_imp]

end

end ErrorClass

/-! ## Kinds -/

namespace Kind

variable {kind wider : Kind} {e : Error}

/-- Whether a kind is a class of errors or a code. -/
def isUsable : Kind → Bool
  | errors _ | code _ => true
  | _ => false

/-- How a kind that cannot be used is refused: by name, or if it cannot be shown, with the error of
showing it. -/
def refusal (kind : Kind) : Error :=
  match kind.shown with
  | .ok t => .saying .typeError
    ("Non-retryable kind must be an exception class or an error code, got " ++ t)
  | .error e => e

end Kind

/-- Whether an error has no code, null or a text for one. -/
def Error.HasPlainCode (e : Error) : Prop :=
  e.code? = none ∨ e.code? = some .null ∨ ∃ tag, e.code? = some (.text tag)

namespace Triage

variable {kind : Kind} {kinds others : List Kind} {triage : Triage} {e e' err : Error}

/-- The verdict of a list of kinds on an error. -/
def judge (kinds : List Kind) (e : Error) : Except Error Verdict := do
  (← ofKinds kinds).classify e

theorem ofKinds_of_unusable (h : kind.isUsable = false) :
    ofKinds (kind :: others) = .error kind.refusal := by
  unfold Kind.refusal
  cases kind with
  | errors | code => cases h
  | type | thrown | value =>
    unfold ofKinds
    cases Kind.shown _ <;> rfl

/-- A usable kind in front is added to the triage of the others, if there is one. -/
theorem ofKinds_of_usable (h : kind.isUsable = true) (others : List Kind) :
    ∃ extend, ofKinds (kind :: others) = (ofKinds others).map extend := by
  cases kind with
  | errors cls => exact ⟨fun t => { t with classes := cls :: t.classes }, by
      rw [ofKinds]; cases ofKinds others <;> rfl⟩
  | code tag => exact ⟨fun t => { t with codes := tag :: t.codes }, by
      rw [ofKinds]; cases ofKinds others <;> rfl⟩
  | _ => cases h

theorem exists_ofKinds_iff :
    (∃ triage, ofKinds kinds = .ok triage) ↔ ∀ kind ∈ kinds, kind.isUsable = true := by
  induction kinds with
  | nil => exact ⟨fun _ => List.forall_mem_nil _, fun _ => ⟨_, rfl⟩⟩
  | cons kind others ih =>
    rw [List.forall_mem_cons]
    cases h : kind.isUsable with
    | false => simp [ofKinds_of_unusable h]
    | true =>
      obtain ⟨extend, hextend⟩ := ofKinds_of_usable h others
      rw [hextend, ← ih]
      cases ofKinds others <;> simp [Except.map]

theorem classify_of_matched (h : ofKinds kinds = .ok triage) (hkind : kind ∈ kinds)
    (hmatches : kind.Matches e) : triage.classify e = .ok .nonRetryable := by
  obtain ⟨hclasses, hcodes⟩ := mem_of_ofKinds h
  unfold classify
  split
  · rfl
  · rename_i hclass
    cases kind with
    | errors cls => exact absurd (List.any_eq_true.2 ⟨cls, (hclasses cls).2 hkind, hmatches⟩) hclass
    | code tag =>
      have hcode : e.code? = some (.text tag) := hmatches
      rw [hcode]
      exact congrArg Except.ok (if_pos ((hcodes tag).2 hkind))
    | _ => exact hmatches.elim

/-- **The verdict in closed form**: not retryable if some kind matches. -/
theorem judge_eq (hkinds : ∀ kind ∈ kinds, kind.isUsable = true) (hcode : e.HasPlainCode) :
    judge kinds e = .ok (if ∃ kind ∈ kinds, kind.Matches e then .nonRetryable else .retryable) := by
  obtain ⟨triage, htriage⟩ := exists_ofKinds_iff.2 hkinds
  have hjudge : judge kinds e = triage.classify e := by rw [judge, htriage]; rfl
  rw [hjudge]
  split
  · rename_i hlisted
    obtain ⟨kind, hkind, hmatches⟩ := hlisted
    exact classify_of_matched htriage hkind hmatches
  · rename_i hunlisted
    have hcomparable : e.isComparable = true := by
      unfold Error.isComparable
      rcases hcode with h | h | ⟨tag, h⟩ <;> simp [h, Value.member?]
    rw [classify_of_unmatched htriage fun kind hkind hmatches => hunlisted ⟨kind, hkind, hmatches⟩,
      if_pos hcomparable]

theorem judge_retryable_iff (hkinds : ∀ kind ∈ kinds, kind.isUsable = true)
    (hcode : e.HasPlainCode) :
    judge kinds e = .ok .retryable ↔ ¬∃ kind ∈ kinds, kind.Matches e := by
  rw [judge_eq hkinds hcode]
  split <;> simp [*]

end Triage

namespace Sample

end Sample

end PartialBatch
