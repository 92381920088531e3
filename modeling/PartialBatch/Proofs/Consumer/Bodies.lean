/-
# Which bodies are records

A body is handled as a record if it is the JSON text of an object, and refused as malformed if it is
not, unless reading it stops at a limit.  What JSON is, is said by its trees (`Json.Document`), and
how deep a text nests by a scan of its brackets (`Json.nesting`); neither mentions the reader.

| body, within the limit on depth | ends in | verdict |
| --- | --- | --- |
| text of an object, no integer above the limit | the receipt of the message | |
| no text of an object, no such integer before its first fault | a `MalformedRecordError` | final |
| an integer of more digits comes first | a `ValueError` | retried |

The last row is the one that keeps a body from being told: such an integer is met by the conversion
to a number, whose error is not among those that the handler takes for a fault of the text, so the
message is delivered over and over (`not_recognised`).  The verdicts do not depend on the
environment, which can only add codes to the kinds that are final.
-/

import PartialBatch.Proofs.Consumer.Release
import PartialBatch.Proofs.Json.Nesting

namespace PartialBatch

/-- Whether an error refuses a message as malformed: its class and its code say so, and it names the
message. -/
structure Error.Refuses (e : Error) (id : Text) : Prop where
  cls : e.cls = .malformedRecord
  code : e.code? = some (.text "MALFORMED_RECORD")
  names : Entries.get? e.notes "message_id" = some (.text id)

namespace Consumer

variable {m : Message} {e : Error}

/-! ## Verdicts -/

/-- Whether a consumer has the same verdict on an error in every environment. -/
def Judges (e : Error) (verdict : Verdict) : Prop :=
  ∀ env, ∃ p, Processor.make (settings env) {} = .ok p ∧ p.triage.classify e = .ok verdict

theorem judges_of_refuses {id : Text} (h : e.Refuses id) : Judges e .nonRetryable := by
  intro env
  obtain ⟨triage, htriage, hmake⟩ := exists_make env
  have hkind : Kind.errors .malformedRecord ∈ (settings env).kinds := List.mem_cons_self ..
  have hmatches : (Kind.errors .malformedRecord).Matches e :=
    (ErrorClass.isA_iff _).2 (.inl h.cls)
  exact ⟨_, hmake, Triage.classify_of_matched htriage hkind hmatches⟩

/-- An error without a code is retried, unless it is a malformed record. -/
theorem judges_retryable (hclass : e.isA .malformedRecord = false) (hcode : e.code? = none) :
    Judges e .retryable := by
  intro env
  obtain ⟨triage, htriage, hmake⟩ := exists_make env
  have hkinds := Triage.exists_ofKinds_iff.1 ⟨triage, htriage⟩
  refine ⟨_, hmake, ?_⟩
  have hjudge : triage.classify e = Triage.judge (settings env).kinds e := by
    rw [Triage.judge, htriage]
    rfl
  rw [hjudge, Triage.judge_retryable_iff hkinds (.inl hcode)]
  rintro ⟨kind, hkind, hmatches⟩
  obtain hclasses | hcodes := List.mem_append.1 hkind
  · obtain rfl := List.mem_singleton.1 hclasses
    cases hclass.symm.trans hmatches
  · obtain ⟨tag, -, rfl⟩ := List.mem_map.1 hcodes
    cases hcode.symm.trans hmatches

/-! ## Outcomes -/

/-- Handling a message ends in its result, whatever the surroundings are. -/
theorem exec_handleRecord {σ : Type} (m : Message) (w : Run.World σ) (s : σ) :
    ((handleRecord m).exec w s).2.1 = result m :=
  (ends_handleRecord (Run.ends_exec w (handleRecord m) s)).2

/-- The error for a body with an integer of too many digits. -/
def overlong (count : Nat) : Error := .saying .valueError (Json.Fault.digits count).text

theorem refuses_refusal (m : Message) : (refusal m).Refuses m.id := ⟨rfl, rfl, rfl⟩

/-- The text of an object is a record. -/
theorem result_of_object {d : Json.Document} (htext : d.text = m.body) (hobject : d.isObject = true)
    (hfits : d.Fits) : result m = .ok (receipt m) := by
  obtain ⟨es, hvalue⟩ := d.isObject_iff.1 hobject
  have hread := Json.read_text d hfits
  rw [htext, hvalue] at hread
  unfold result
  rw [hread]

/-- Any other text is refused, if reading it stops at no limit. -/
theorem result_of_not_object (hbody : ¬Json.IsObjectText m.body)
    (hdepth : ∀ container, Json.read m.body ≠ .error (.depth container))
    (hdigits : ∀ count, Json.read m.body ≠ .error (.digits count)) :
    result m = .error (refusal m) := by
  unfold result
  split
  · rename_i hread
    exact absurd hread (hdigits _)
  · rename_i hread
    exact absurd hread (hdepth _)
  · rfl
  · rename_i es hread
    obtain ⟨d, htext, hvalue, -⟩ := Json.exists_document hread
    exact absurd ⟨d, htext, d.isObject_iff.2 ⟨es, hvalue⟩⟩ hbody
  · rfl

theorem result_of_digits {count : Nat} (hread : Json.read m.body = .error (.digits count)) :
    result m = .error (overlong count) := by
  unfold result
  rw [hread]
  rfl

/-- **Bodies are recognised for what they are**, unless an integer of more than 4300 digits stands
in the way. Of a message whose body nests within the limit: if the body is the text of an object
whose integers are within the limit on digits, with any white space between tokens, handling
returns the receipt of the message; if it is the text of no object, and reading does not stop at an
integer, handling ends in a `MalformedRecordError` that names the message, on which the verdict is
not to retry in every environment. Reading stops at an integer only if one of so many digits stands
in the body, which is one of its numbers if the body is a JSON text at all; then handling ends in a
`ValueError`, which is retried in every environment. -/
theorem bodies_recognised {σ : Type} (m : Message) (w : Run.World σ) (s : σ)
    (hnesting : Json.nesting m.body ≤ Json.maxDepth) :
    (∀ d : Json.Document, d.text = m.body → d.isObject = true → d.doc.digits ≤ Json.maxDigits →
        ((handleRecord m).exec w s).2.1 = .ok (receipt m)) ∧
      (¬Json.IsObjectText m.body → (∀ count, Json.read m.body ≠ .error (.digits count)) →
        ∃ e, ((handleRecord m).exec w s).2.1 = .error e ∧ e.Refuses m.id ∧
          Judges e .nonRetryable) ∧
      ∀ count, Json.read m.body = .error (.digits count) →
        (∃ t, t <:+ m.body ∧ Json.StartsLong t count) ∧
          (∀ d : Json.Document, d.text = m.body → Json.maxDigits < d.doc.digits) ∧
          ((handleRecord m).exec w s).2.1 = .error (overlong count) ∧
          Judges (overlong count) .retryable := by
  have hdepth (container : Json.Container) : Json.read m.body ≠ .error (.depth container) :=
    fun hread => absurd (Json.lt_nesting_of_depth hread) (Nat.not_lt.2 hnesting)
  have hfits {d : Json.Document} (htext : d.text = m.body)
      (hdigits : d.doc.digits ≤ Json.maxDigits) : d.Fits :=
    ⟨by rwa [← Json.nesting_text, htext], hdigits⟩
  rw [exec_handleRecord]
  refine ⟨fun d htext hobject hdigits => ?_, fun hbody hdigits => ?_, fun count hread => ?_⟩
  · exact result_of_object htext hobject (hfits htext hdigits)
  · have hresult := result_of_not_object hbody hdepth hdigits
    exact ⟨refusal m, hresult, refuses_refusal m, judges_of_refuses (refuses_refusal m)⟩
  · refine ⟨Json.exists_long_of_digits hread, fun d htext => ?_, result_of_digits hread,
      judges_retryable rfl rfl⟩
    by_contra hshort
    have hvalue := Json.read_text d (hfits htext (Nat.le_of_not_lt hshort))
    rw [htext, hread] at hvalue
    cases hvalue

end Consumer

namespace Sample

/-- A list, with an object in it. -/
def listed : Message := order "a" "[\x7b\x7d]"

/-- A message with one digit more than an integer may have for its body. -/
def ones : Message := order "a" (List.replicate (Json.maxDigits + 1) (CodePoint.scalar '1'))

/-- The number in the body of `ones`. -/
def onesNumber : Json.Number where
  negative := false
  whole := List.replicate (Json.maxDigits + 1) (CodePoint.scalar '1')
  fraction := []
  exponent := none
  isWhole := by
    refine .inr ⟨by simp, fun c hc => ?_, ?_⟩
    · rw [List.eq_of_mem_replicate hc]
      decide
    · rw [List.replicate_succ, List.head?_cons]
      decide
  isFraction := List.forall_mem_nil _

/-- The body of `ones` as a JSON text. -/
def onesDocument : Json.Document where
  before := ⟨[], List.forall_mem_nil _⟩
  doc := .number onesNumber
  after := ⟨[], List.forall_mem_nil _⟩

theorem text_onesDocument : onesDocument.text = ones.body := by
  change onesNumber.text ++ [] = _
  rw [List.append_nil]
  change onesNumber.whole ++ [] = _
  rw [List.append_nil]
  rfl

end Sample

namespace Consumer

/-- A list is no record. -/
theorem bodies_recognised_sample : Json.nesting Sample.listed.body ≤ Json.maxDepth ∧
    ¬Json.IsObjectText Sample.listed.body ∧
    ∃ e, ((handleRecord Sample.listed).exec (.service Sample.obliging) ()).2.1 = .error e ∧
      e.Refuses "a" ∧ Judges e .nonRetryable := by
  have hnesting : Json.nesting Sample.listed.body ≤ Json.maxDepth := by decide
  have hbody : ¬Json.IsObjectText Sample.listed.body := fun h => by
    obtain ⟨t, ht⟩ := h.exists_brace
    cases ht
  have hread : Json.read Sample.listed.body = .ok (.list [.object []]) := by decide +kernel
  refine ⟨hnesting, hbody, ?_⟩
  exact (bodies_recognised Sample.listed (.service Sample.obliging) () hnesting).2.1 hbody
    fun count h => by cases hread.symm.trans h

/-- **Not every body that is no record is refused as one**: an integer of 4301 digits ends in a
`ValueError`, and the message is retried in every environment. -/
theorem not_recognised : ¬Json.IsObjectText Sample.ones.body ∧
    Json.nesting Sample.ones.body ≤ Json.maxDepth ∧
    ∃ e, ((handleRecord Sample.ones).exec (.service Sample.obliging) ()).2.1 = .error e ∧
      e.cls = .valueError ∧ ¬e.Refuses Sample.ones.id ∧ Judges e .retryable := by
  have hbody : ¬Json.IsObjectText Sample.ones.body := fun h => by
    obtain ⟨t, ht⟩ := h.exists_brace
    rw [Json.skip, Sample.ones, Sample.order, List.replicate_succ,
      List.dropWhile_cons_of_neg (by decide)] at ht
    exact absurd (List.cons.inj ht).1 (by decide)
  have hnesting : Json.nesting Sample.ones.body ≤ Json.maxDepth := by
    rw [← Sample.text_onesDocument, Json.nesting_text]
    exact Nat.zero_le _
  have hdigits : Sample.onesNumber.digits = Json.maxDigits + 1 := List.length_replicate
  have hlong : Json.maxDigits < Sample.onesNumber.digits := hdigits ▸ Nat.lt_succ_self _
  have hread := Json.read_of_long (d := Sample.onesDocument) rfl hlong
  rw [Sample.text_onesDocument] at hread
  refine ⟨hbody, hnesting, overlong Sample.onesNumber.digits, ?_, rfl, ?_, judges_retryable rfl rfl⟩
  · rw [exec_handleRecord]
    exact result_of_digits hread
  · intro hrefuses
    cases hrefuses.code

end Consumer
end PartialBatch
