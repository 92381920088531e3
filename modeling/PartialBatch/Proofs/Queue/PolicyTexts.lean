/-
# Policies are read back from their texts

A text serialises a redrive policy if it is the JSON text of an object that has the target once, the
count once or not at all, and whatever else (`Serialises`).  Nothing is said of how the text is
written: each string may be escaped in any way, white space may stand between any two tokens, and
the members may stand in any order.

| the policy | in the object |
| --- | --- |
| its target | a string that stands for it |
| its count `n` | the integer `n`, or a string that stands for its decimal text |
| no count | null, or no member |

Such a text is read as the policy (`policies_round_trip`), because the two look-ups that are made
find these members and no others (`value?_of_named`).  What the other members are does not matter,
with one exception: the whole text is read, so an integer of too many digits in one of them, which
nothing would look for, leaves the policy unread (`not_read_back`).
-/

import PartialBatch.Proofs.Consumer.Bodies
import PartialBatch.Proofs.Json.Members
import PartialBatch.Proofs.Queue.Policies

namespace PartialBatch

/-! ## Parts among members -/

/-- Whether a key is one of the two under which a part is looked for. -/
def Part.names (p : Part) (key : Text) : Bool := key = p.key || key = p.name

theorem Part.names_iff {p : Part} {key : Text} : p.names key = true ↔ key = p.key ∨ key = p.name := by
  simp [names]

section Parts

variable {part : Part} {items : Json.Members} {key : Text} {d : Json.Doc}

/-- A look-up for a part depends on the members under its keys only. -/
theorem get?_of_names (part : Part) (hkey : key = part.key ∨ key = part.name) :
    Entries.get? (items.entries []) key =
      (((items.named.filter fun m => part.names m.1).filter fun m => m.1 = key).getLast?).map
        fun m => m.2.value := by
  rw [items.get?_entries, List.filter_filter]
  refine congrArg (fun ms => (List.getLast? ms).map _) (List.filter_congr fun m _ => ?_)
  by_cases hm : m.1 = key <;> simp [hm, Part.names_iff.2 hkey]

/-- **What a part is found to be is what its only member names.** -/
theorem value?_of_named
    (h : (items.named.filter fun m => part.names m.1) = [(key, d)]) :
    part.value? (items.entries []) = some d.value := by
  have hmem : (key, d) ∈ items.named.filter fun m => part.names m.1 := h ▸ List.mem_singleton_self _
  have hkey : key = part.key ∨ key = part.name := Part.names_iff.1 (List.mem_filter.1 hmem).2
  unfold Part.value?
  rw [get?_of_names part (.inl rfl), h, get?_of_names part (.inr rfl), h]
  by_cases hfirst : key = part.key
  · simp [hfirst]
  · have hsecond := hkey.resolve_left hfirst
    have hne : part.name ≠ part.key := hsecond ▸ hfirst
    simp [hsecond, hne]

theorem value?_of_no_member (h : (items.named.filter fun m => part.names m.1) = []) :
    part.value? (items.entries []) = none := by
  unfold Part.value?
  rw [get?_of_names part (.inl rfl), h, get?_of_names part (.inr rfl), h]
  rfl

end Parts

namespace RedrivePolicy

/-! ## Serialising a policy -/

/-- What may stand for the count of a policy. -/
inductive Counts : Option Int → Value → Prop
  | null : Counts none .null
  | int (n : Int) : Counts (some n) (.int n)
  | text (n : Int) : Counts (some n) (.text (Text.ofInt n))

/-- Whether the members of an object serialise a policy. -/
structure Serialises (members : List (Text × Json.Doc)) (p : RedrivePolicy) : Prop where
  target : ∃ key d, (members.filter fun m => Part.target.names m.1) = [(key, d)] ∧
    d.value = .text p.target
  count : ((members.filter fun m => Part.count.names m.1) = [] ∧ p.maxReceiveCount = none) ∨
    ∃ key d, (members.filter fun m => Part.count.names m.1) = [(key, d)] ∧
      Counts p.maxReceiveCount d.value

/-- Whether the decimal text of a count is no longer than can be read, a minus sign included. -/
def IsCountable (p : RedrivePolicy) : Prop :=
  ∀ n ∈ p.maxReceiveCount, (Text.ofInt n).length ≤ Text.maxNumeralDigits

/-- Whether a member of an object is within the limits, as far as it is no part of a policy. -/
def IsReadable (m : Text × Json.Doc) : Prop :=
  Part.target.names m.1 = false → Part.count.names m.1 = false →
    m.2.depth < Json.maxDepth ∧ m.2.digits ≤ Json.maxDigits

variable {p : RedrivePolicy} {items : Json.Members} {v : Value}

theorem isReadable_of_part {m : Text × Json.Doc}
    (h : Part.target.names m.1 = true ∨ Part.count.names m.1 = true) : IsReadable m := by
  intro htarget hcount
  simp [htarget, hcount] at h

theorem integer_of_counts {n? : Option Int} {place : List Text} (h : Counts n? v)
    (hdigits : ∀ n ∈ n?, (Text.ofInt n).length ≤ Text.maxNumeralDigits) :
    FieldReader.integer.optional place v = .ok n? := by
  cases h with
  | null => rfl
  | int n => rfl
  | text n =>
    have hinteger := Value.integer_ofInt (hdigits n rfl)
    simp [FieldReader.optional, FieldReader.integer, hinteger, Except.map]

/-- **Every policy has a text that serialises it.** -/
theorem exists_serialises (p : RedrivePolicy) :
    ∃ d : Json.Document, Serialises d.named p ∧ ∀ m ∈ d.named, IsReadable m := by
  obtain ⟨first, hfirst⟩ := Json.Piece.exists_textOf "deadLetterTargetArn"
  obtain ⟨second, hsecond⟩ := Json.Piece.exists_textOf "maxReceiveCount"
  obtain ⟨target, htarget⟩ := Json.Piece.exists_textOf p.target
  obtain ⟨count, hcount⟩ : ∃ d : Json.Doc, Counts p.maxReceiveCount d.value := by
    cases p.maxReceiveCount with
    | none => exact ⟨.word "null" .null (List.mem_cons_self ..), .null⟩
    | some n =>
      refine ⟨.number (.ofInt n), ?_⟩
      rw [Json.Doc.value, Json.Number.value_ofInt]
      exact .int n
  let b : Json.Blank := .none
  let items : Json.Members := .more first b b (.string target) b b (.last second b b count b)
  let d : Json.Document := ⟨b, .object b items, b⟩
  have hnamed : d.named =
      ([("deadLetterTargetArn", .string target), ("maxReceiveCount", count)] :
        List (Text × Json.Doc)) := by
    simp only [d, items, Json.Document.named, Json.Members.named, hfirst, hsecond]
  refine ⟨d, ?_, ?_⟩
  · rw [hnamed]
    exact ⟨⟨_, _, rfl, congrArg Value.text htarget⟩, .inr ⟨_, _, rfl, hcount⟩⟩
  · rw [hnamed]
    exact List.forall_mem_cons.2 ⟨isReadable_of_part (.inl rfl),
      List.forall_mem_singleton.2 (isReadable_of_part (.inr rfl))⟩

/-- The members that serialise a policy are read as it. -/
theorem ofEntries_of_serialises (h : Serialises items.named p) (hp : p.IsCountable) :
    ofEntries (items.entries []) = .ok p := by
  obtain ⟨key, d, htarget, hvalue⟩ := h.target
  have hread : FieldReader.text.field Part.target.key Part.target.name none (items.entries []) =
      .ok p.target := by
    rw [FieldReader.field_of_found (value?_of_named htarget), hvalue]
    rfl
  have hcount : FieldReader.integer.optional.field Part.count.key Part.count.name (some none)
      (items.entries []) = .ok p.maxReceiveCount := by
    obtain ⟨hnone, hnull⟩ | ⟨key, d, hcount, hvalue⟩ := h.count
    · rw [FieldReader.field_of_missing (value?_of_no_member hnone), hnull]
      rfl
    · rw [FieldReader.field_of_found (value?_of_named hcount)]
      exact integer_of_counts hvalue hp
  refine Checked.seq_eq_ok.2 ⟨RedrivePolicy.mk p.target, p.maxReceiveCount, ?_, hcount, rfl⟩
  exact Checked.seq_eq_ok.2 ⟨RedrivePolicy.mk, p.target, rfl, hread, rfl⟩

/-- A member that names a text or null is within the limits. -/
theorem limits_of_flat {d : Json.Doc} (h : d.value = .null ∨ ∃ t, d.value = .text t) :
    d.depth < Json.maxDepth ∧ d.digits ≤ Json.maxDigits := by
  obtain ⟨hdepth, hdigits⟩ := Json.Doc.limits_of_flat h
  rw [hdepth, hdigits]
  decide

/-- A member that stands for a count is within the limits if the count is. -/
theorem limits_of_counts {d : Json.Doc} {n? : Option Int} (h : Counts n? d.value)
    (hn : ∀ n ∈ n?, (Text.ofInt n).length ≤ Text.maxNumeralDigits) :
    d.depth < Json.maxDepth ∧ d.digits ≤ Json.maxDigits := by
  generalize hv : d.value = v at h
  cases h with
  | null => exact limits_of_flat (.inl hv)
  | int n =>
    obtain ⟨hdepth, hdigits⟩ := Json.Doc.limits_of_int hv
    rw [hdepth, hdigits]
    exact ⟨by decide, (Text.length_natAbs_le n).trans (hn n rfl)⟩
  | text n => exact limits_of_flat (.inr ⟨_, hv⟩)

/-- If the members that are no part of a policy are within the limits, all are. -/
theorem limits_of_serialises (h : Serialises items.named p) (hp : p.IsCountable)
    (hothers : ∀ m ∈ items.named, IsReadable m) :
    ∀ m ∈ items.named, m.2.depth < Json.maxDepth ∧ m.2.digits ≤ Json.maxDigits := by
  intro m hm
  cases htarget : Part.target.names m.1 with
  | true =>
    obtain ⟨key, d, hfilter, hvalue⟩ := h.target
    have hmem : m ∈ [(key, d)] := hfilter ▸ List.mem_filter.2 ⟨hm, htarget⟩
    obtain rfl := List.mem_singleton.1 hmem
    exact limits_of_flat (.inr ⟨_, hvalue⟩)
  | false =>
    cases hcount : Part.count.names m.1 with
    | true =>
      have hmem : m ∈ items.named.filter fun m => Part.count.names m.1 :=
        List.mem_filter.2 ⟨hm, hcount⟩
      obtain ⟨hnone, -⟩ | ⟨key, d, hfilter, hvalue⟩ := h.count
      · rw [hnone] at hmem
        cases hmem
      · rw [hfilter] at hmem
        obtain rfl := List.mem_singleton.1 hmem
        exact limits_of_counts hvalue hp
    | false => exact hothers m hm htarget hcount

/-- A text that serialises a policy reads as an object that holds it. -/
theorem read_of_serialises {d : Json.Document} (hp : p.IsCountable) (h : Serialises d.named p)
    (hothers : ∀ m ∈ d.named, IsReadable m) :
    ∃ es, Json.read d.text = .ok (.object es) ∧ ofEntries es = .ok p := by
  obtain ⟨key, doc, htarget, -⟩ := h.target
  have hmem : (key, doc) ∈ d.named.filter fun m => Part.target.names m.1 :=
    htarget ▸ List.mem_singleton_self _
  obtain ⟨b, items, hdoc, hnamed⟩ := Json.Document.exists_object (List.mem_filter.1 hmem).1
  rw [hnamed] at h hothers
  have hlimits := limits_of_serialises h hp hothers
  have hfits : d.Fits := by
    have hdepth : items.depth ≤ Json.maxDepth - 1 :=
      items.depth_le_iff.2 fun m hm => Nat.le_sub_one_of_lt (hlimits m hm).1
    have hdigits : items.digits ≤ Json.maxDigits :=
      items.digits_le_iff.2 fun m hm => (hlimits m hm).2
    unfold Json.Document.Fits
    rw [hdoc]
    exact ⟨Nat.add_le_of_le_sub (by decide) hdepth, hdigits⟩
  have hread : Json.read d.text = .ok (.object (items.entries [])) := by
    rw [Json.read_text d hfits, Json.Document.value, hdoc, Json.Doc.value]
  exact ⟨_, hread, ofEntries_of_serialises h hp⟩

/-- **A redrive policy is read back from every text that serialises it**, and there is one, if its
count takes no more than 4300 characters, its sign among them. The text may have any other members
that are within the limits. What the answer about the attributes of a queue holds is read back in the
same way. -/
theorem policies_round_trip {p : RedrivePolicy} (hp : p.IsCountable) :
    (∃ d : Json.Document, Serialises d.named p ∧ ∀ m ∈ d.named, IsReadable m) ∧
      ∀ d : Json.Document, Serialises d.named p → (∀ m ∈ d.named, IsReadable m) →
        (∀ queueUrl, ofAttribute queueUrl (.text d.text) = .ok p) ∧
        ∀ (σ : Type) (w : Run.World σ) (s : σ) (queueUrl : Text) (es : Entries),
          QueueClient.Holds es (some d.text) →
          calls ((QueueClient.redrivePolicy (.text queueUrl)).exec w s).1 =
            [⟨QueueClient.policyRequest queueUrl, .ok (.object es)⟩] →
          ((QueueClient.redrivePolicy (.text queueUrl)).exec w s).2.1 = .ok (some p) := by
  refine ⟨exists_serialises p, fun d hserialises hothers => ?_⟩
  obtain ⟨read, hread, hentries⟩ := read_of_serialises hp hserialises hothers
  have hpolicy (queueUrl : Value) : ofAttribute queueUrl (.text d.text) = .ok p :=
    ofAttribute_eq_ok.2 ⟨read, hread, hentries⟩
  refine ⟨hpolicy, fun σ w s queueUrl es hholds hcalls => ?_⟩
  have hne : d.text ≠ [] := by
    obtain ⟨c, t, hfront, -⟩ := Json.exists_front d.doc
    rw [Json.Document.text, hfront]
    simp
  rw [QueueClient.exec_redrivePolicy hcalls, QueueClient.policyIn_of_holds hholds,
    Option.getD_some, if_neg hne, hpolicy]
  rfl

end RedrivePolicy

/-! ## A text to look at -/

namespace Sample

open Json

/-- A policy with a count. -/
def policy : RedrivePolicy := ⟨"arn:aws:sqs:eu:1:dead", some 5⟩

/-- A text of code points that stand for themselves. -/
def plain (t : Text) (h : ∀ c ∈ t, IsPlain c) : List Piece := t.pmap Piece.plain h

def space : Blank := ⟨" ", by decide⟩

/-- An object that has some value and then, in reverse, the parts of `policy`. The target starts
with an escape. -/
def policyText (d : Doc) : Document where
  before := .none
  doc := .object .none <|
    .more (plain "x" (by decide)) .none space d .none space <|
    .more (plain "maxReceiveCount" (by decide)) .none space
      (.string (plain "5" (by decide))) .none space <|
    .last (plain "deadLetterTargetArn" (by decide)) .none space
      (.string (.unicode '0' '0' '6' '1' 97 rfl :: plain "rn:aws:sqs:eu:1:dead" (by decide))) .none
  after := .none

theorem named_policyText (d : Doc) : ∃ count target,
    (policyText d).named =
      ([("x", d), ("maxReceiveCount", count), ("deadLetterTargetArn", target)] :
        List (Text × Doc)) ∧
      count.value = .text "5" ∧ target.value = .text policy.target :=
  ⟨_, _, rfl, rfl, rfl⟩

end Sample

namespace RedrivePolicy

theorem serialises_policyText (d : Json.Doc) :
    Serialises (Sample.policyText d).named Sample.policy := by
  obtain ⟨count, target, hnamed, hcount, htarget⟩ := Sample.named_policyText d
  rw [hnamed]
  refine ⟨⟨_, _, rfl, htarget⟩, .inr ⟨_, _, rfl, ?_⟩⟩
  rw [hcount]
  exact .text 5

theorem isCountable_policy : Sample.policy.IsCountable := by
  rintro n ⟨⟩
  decide

/-- The policy is read back although its target is escaped and something else is in front. -/
theorem policies_round_trip_sample :
    Sample.policy.IsCountable ∧
      Serialises (Sample.policyText (.noElements Sample.space)).named Sample.policy ∧
      (∀ m ∈ (Sample.policyText (.noElements Sample.space)).named, IsReadable m) ∧
      ofAttribute .null (.text (Sample.policyText (.noElements Sample.space)).text) =
        .ok Sample.policy := by
  have hserialises := serialises_policyText (.noElements Sample.space)
  have hothers : ∀ m ∈ (Sample.policyText (.noElements Sample.space)).named, IsReadable m := by
    obtain ⟨count, target, hnamed, -, -⟩ := Sample.named_policyText (.noElements Sample.space)
    rw [hnamed]
    simp only [List.forall_mem_cons]
    exact ⟨fun _ _ => by decide, isReadable_of_part (.inr rfl), isReadable_of_part (.inl rfl),
      List.forall_mem_nil _⟩
  exact ⟨isCountable_policy, hserialises, hothers,
    ((policies_round_trip isCountable_policy).2 _ hserialises hothers).1 .null⟩

/-- **Not every text that serialises a policy is read**: an integer of 4301 digits under another key
is in the way. -/
theorem not_read_back :
    Sample.policy.IsCountable ∧
      Serialises (Sample.policyText (.number Sample.onesNumber)).named Sample.policy ∧
      ¬∃ p, ofAttribute .null (.text (Sample.policyText (.number Sample.onesNumber)).text) = .ok p := by
  refine ⟨isCountable_policy, serialises_policyText _, ?_⟩
  rintro ⟨p, hp⟩
  obtain ⟨es, hread, -⟩ := ofAttribute_eq_ok.1 hp
  have hlong : Json.maxDigits < Sample.onesNumber.digits := by
    have hdigits : Sample.onesNumber.digits = Json.maxDigits + 1 := List.length_replicate
    omega
  have hdigits : Json.maxDigits < (Sample.policyText (.number Sample.onesNumber)).doc.digits :=
    Nat.lt_of_lt_of_le hlong (Nat.le_max_left _ _)
  obtain ⟨count, herror⟩ := Json.read_of_overlong (Nat.le_of_ble_eq_true rfl) hdigits
  cases herror.symm.trans hread

end RedrivePolicy
end PartialBatch
