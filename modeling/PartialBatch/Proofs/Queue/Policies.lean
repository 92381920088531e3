/-
# Which redrive policies can be used

A queue has a redrive policy if the answer about its attributes holds a text that is not empty
(`Holds`).  Reading the policy from the text fails in one way only, whatever is wrong with the text,
and what can be wrong with it is a list of five (`Unusable`):

| the text | reads as |
| --- | --- |
| is no JSON text | nothing |
| has an integer of too many digits | nothing, although it is JSON |
| is not that of an object | another value |
| names no target | an object without a text under the keys of the target |
| counts receives by something else | an object with another value under those of the count |

The second row is why it takes the whole grammar to say that reading fails: such an integer may
stand anywhere in the text, also where no part of a policy is looked for (`Json.read_of_overlong`).
Texts that nest too deep are left out; how deep is said by a scan of brackets (`Json.nesting`).

Any other text is read as the policy whose target and count stand in it (`Usable`).  That does not
make it useful: the target may be any text, and it has a URL only if it is the resource name of a
queue (`deadLetterUrl_eq`).
-/

import PartialBatch.Proofs.Json.Nesting
import PartialBatch.Proofs.Json.Overlong
import PartialBatch.Proofs.Queue.Addresses
import PartialBatch.Proofs.Validation

namespace PartialBatch
namespace RedrivePolicy

/-! ## The parts of a policy -/

namespace Part

def target : Part := ⟨"deadLetterTargetArn", "dead_letter_target_arn", none, .text⟩
def count : Part := ⟨"maxReceiveCount", "max_receive_count", some .null, .optional .integer⟩

end Part

variable {es : Entries} {p : RedrivePolicy} {e : Error} {queueUrl : Value} {t : Text}

open FieldReader in
/-- Reading an object settles the parts of a policy. -/
theorem settles_ofEntries (es : Entries) :
    (ofEntries es).Settles [Part.target, Part.count] es :=
  (Checked.settles_pure RedrivePolicy.mk es)
    |>.seq (reads_text.settles_field Part.target rfl)
    |>.seq (reads_integer.optional.settles_field Part.count rfl)

theorem ofAttribute_eq_ok : ofAttribute queueUrl (.text t) = .ok p ↔
    ∃ es, Json.read t = .ok (.object es) ∧ ofEntries es = .ok p := by
  unfold ofAttribute
  cases hread : Json.read t with
  | error fault => cases fault <;> simp [hread]
  | ok v =>
    cases v with
    | object es => cases hes : ofEntries es <;> simp [hread, ofValue, hes]
    | _ => simp [hread, ofValue]

open QueueAddress (IsArn inArn)

end RedrivePolicy

/-! ## Answers about attributes -/

namespace QueueClient

/-- Which text of a redrive policy an answer holds, if any. -/
inductive Holds (es : Entries) : Option Text → Prop
  | noAttributes (h : es.get? "Attributes" = none ∨ es.get? "Attributes" = some .null) :
      Holds es none
  | noPolicy {attributes : Entries} (hes : es.get? "Attributes" = some (.object attributes))
      (h : attributes.get? redriveAttribute = none ∨
        attributes.get? redriveAttribute = some .null) : Holds es none
  | policy {attributes : Entries} {t : Text}
      (hes : es.get? "Attributes" = some (.object attributes))
      (h : attributes.get? redriveAttribute = some (.text t)) : Holds es (some t)

variable {es : Entries} {raw? : Option Text} {queueUrl : Text}

/-- What counts as the policy in an answer, from what the answer has. -/
theorem policyOf_eq (attributes policy : Value)
    (hattributes : (es.get? "Attributes").getD .null = attributes)
    (hpolicy : (if attributes.truthy then part attributes redriveAttribute else .ok .null) =
      .ok policy) :
    policyOf (.object es) = .ok (if policy.truthy then some policy else none) := by
  have hpart : part (.object es) "Attributes" = .ok attributes := congrArg Except.ok hattributes
  unfold policyOf
  rw [hpart]
  dsimp only [Bind.bind, Except.bind]
  split at hpolicy
  · rename_i htruthy
    rw [if_pos htruthy, hpolicy]
    rfl
  · rename_i hfalsy
    obtain rfl := Except.ok.inj hpolicy
    rw [if_neg hfalsy]
    rfl

theorem policyOf_of_holds (h : Holds es raw?) :
    policyOf (.object es) = .ok (if raw?.getD [] = [] then none else raw?.map .text) := by
  have hnull {v? : Option Value} (h : v? = none ∨ v? = some .null) : v?.getD .null = .null := by
    obtain h | h := h <;> rw [h] <;> rfl
  cases h with
  | noAttributes h => exact policyOf_eq .null .null (hnull h) rfl
  | @noPolicy attributes hes h =>
    refine policyOf_eq (.object attributes) .null (by rw [hes]; rfl) ?_
    split
    · exact congrArg Except.ok (hnull h)
    · rfl
  | @policy attributes t hes h =>
    have htruthy : Value.truthy (.object attributes) = true := by
      cases attributes with
      | nil => cases h
      | cons e rest => rfl
    rw [policyOf_eq (.object attributes) (.text t) (by rw [hes]; rfl)
      (by rw [if_pos htruthy, part, h]; rfl)]
    cases t <;> rfl

/-- What is read of an answer without a policy, or with one. -/
theorem policyIn_of_holds (h : Holds es raw?) : policyIn queueUrl (.object es) =
    if raw?.getD [] = [] then .ok none
    else (RedrivePolicy.ofAttribute (.text queueUrl) (.text (raw?.getD []))).map some := by
  unfold policyIn
  rw [policyOf_of_holds h]
  cases raw? with
  | none => rfl
  | some t =>
    by_cases ht : t = []
    · subst ht
      rfl
    · simp only [Option.getD_some, if_neg ht]
      change (RedrivePolicy.ofAttribute (.text queueUrl) (.text t) >>= _) = _
      cases RedrivePolicy.ofAttribute (.text queueUrl) (.text t) <;> rfl

/-- Reading a redrive policy ends in what the answer holds, whatever the surroundings are. -/
theorem exec_redrivePolicy {σ : Type} {w : Run.World σ} {s : σ} {answer : Value}
    (hcalls : calls ((redrivePolicy (.text queueUrl)).exec w s).1 =
      [⟨policyRequest queueUrl, .ok answer⟩]) :
    ((redrivePolicy (.text queueUrl)).exec w s).2.1 = policyIn queueUrl answer := by
  obtain ⟨answer', hcalls', hend⟩ := ends_redrivePolicy (Run.ends_exec w _ s)
  obtain ⟨rfl, -⟩ := Call.cons_inj (hcalls.symm.trans hcalls')
  exact hend

open QueueAddress (IsArn inArn)

end QueueClient

namespace Sample

end Sample

namespace QueueClient

end QueueClient
end PartialBatch
