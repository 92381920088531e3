/-
# What a redriven message keeps

The entry of a send request carries the id and the body of its message, and of its attributes those
that have a data type and a value (`isSent`), in their order.  Only the form of an attribute changes
(`SentAs`):

| attribute | sent with |
| --- | --- |
| with a string value | the string value, whatever its binary value |
| with a binary value that is a text | the bytes that the text spells |
| with another binary value | that value |

The second row is the one that can fail: a text that spells no bytes has nothing to be sent, so such
a message has no entry at all (`not_sent`).  Of every other message the content arrives
(`content_kept`), and if the text is the base64 text of bytes, with whatever line breaks, it is just
those bytes that do.
-/

import PartialBatch.Proofs.Base64
import PartialBatch.Proofs.Batch.Contract

namespace PartialBatch
namespace Message

/-! ## Attributes -/

/-- The data type of an attribute, if it has one that counts as true. -/
def typeOf? (given : Entries) : Option Value :=
  ((given.get? "dataType").filter Value.truthy).or ((given.get? "DataType").filter Value.truthy)

/-- A value of an attribute, unless it is null. -/
def valueOf? (given : Entries) (key : Text) : Option Value := (given.get? key).filter (· ≠ .null)

/-- Whether an attribute is sent: it has a data type, and a value. -/
def isSent (given : Entries) : Bool :=
  (typeOf? given).isSome &&
    ((valueOf? given "stringValue").isSome || (valueOf? given "binaryValue").isSome)

/-- Whether an attribute is sent as the bytes that a text spells. -/
structure Spells (given : Entries) (t : Text) : Prop where
  type : (typeOf? given).isSome = true
  noString : valueOf? given "stringValue" = none
  spelled : valueOf? given "binaryValue" = some (.text t)

/-- The binary value that is sent for one that was given. -/
inductive Raw : Value → Value → Prop
  | text {t : Text} {b : List UInt8} (h : Base64.decode t = .ok b) : Raw (.text t) (.bytes b)
  | other {v : Value} (h : ∀ t, v ≠ .text t) : Raw v v

/-- What an attribute is sent as. -/
inductive SentAs (given : Entries) : Value → Prop
  | string {type v : Value} (htype : typeOf? given = some type)
      (hv : valueOf? given "stringValue" = some v) :
      SentAs given (.object [("DataType", type), ("StringValue", v)])
  | binary {type v raw : Value} (htype : typeOf? given = some type)
      (hnone : valueOf? given "stringValue" = none)
      (hv : valueOf? given "binaryValue" = some v) (hraw : Raw v raw) :
      SentAs given (.object [("DataType", type), ("BinaryValue", raw)])

variable {given : Entries} {attributes : List (Text × Entries)} {m : Message} {key : Text}
  {v type : Value} {t : Text} {e : Error}

theorem typeOf?_eq (given : Entries) :
    typeOf? given = if (dataType given).truthy then some (dataType given) else none := by
  have hfilter (v? : Option Value) : v?.filter Value.truthy =
      if (v?.getD .null).truthy then some (v?.getD .null) else none := by
    cases v? with
    | none => rfl
    | some v => cases hv : v.truthy <;> simp [Option.filter, hv]
  unfold typeOf? dataType
  rw [hfilter, hfilter]
  cases hfirst : ((given.get? "dataType").getD .null).truthy <;> simp [hfirst]

theorem getD_eq (given : Entries) (key : Text) :
    (given.get? key).getD .null = (valueOf? given key).getD .null := by
  unfold valueOf?
  cases given.get? key with
  | none => rfl
  | some v => by_cases hv : v = .null <;> simp [Option.filter, hv]

theorem ne_null (h : valueOf? given key = some v) : v ≠ .null := by
  simpa using (Option.filter_eq_some_iff.1 h).2

/-- Converting an attribute, said with what it has. -/
theorem sendAttribute_eq (given : Entries) : sendAttribute given =
    match typeOf? given, valueOf? given "stringValue", valueOf? given "binaryValue" with
    | some type, some v, _ => .ok (some (.object [("DataType", type), ("StringValue", v)]))
    | some type, none, some (.text t) =>
      (binary t).map fun b => some (.object [("DataType", type), ("BinaryValue", .bytes b)])
    | some type, none, some v => .ok (some (.object [("DataType", type), ("BinaryValue", v)]))
    | _, _, _ => .ok none := by
  unfold sendAttribute
  rw [typeOf?_eq, getD_eq, getD_eq]
  dsimp only
  cases (dataType given).truthy with
  | false => rfl
  | true =>
    cases hs : valueOf? given "stringValue" with
    | some v =>
      have hv := ne_null hs
      cases v with
      | null => exact absurd rfl hv
      | _ => rfl
    | none =>
      cases hb : valueOf? given "binaryValue" with
      | none => rfl
      | some v =>
        have hv := ne_null hb
        cases v with
        | null => exact absurd rfl hv
        | text t => cases binary t <;> rfl
        | _ => rfl

theorem binary_eq_ok {b : List UInt8} : binary t = .ok b ↔ Base64.decode t = .ok b := by
  unfold binary
  cases Base64.decode t with
  | ok bytes => simp
  | error f => cases f <;> simp

/-- What comes of an attribute: it is left out, or sent, or a text that it would be sent as spells
nothing. -/
theorem sendAttribute_cases (given : Entries) :
    (sendAttribute given = .ok none ∧ isSent given = false) ∨
      (∃ v, sendAttribute given = .ok (some v) ∧ isSent given = true ∧ SentAs given v) ∨
        ∃ e t, sendAttribute given = .error e ∧ Spells given t ∧ binary t = .error e := by
  rw [sendAttribute_eq, isSent]
  cases htype : typeOf? given with
  | none => exact .inl ⟨rfl, rfl⟩
  | some type =>
    cases hs : valueOf? given "stringValue" with
    | some v => exact .inr (.inl ⟨_, rfl, rfl, .string htype hs⟩)
    | none =>
      cases hb : valueOf? given "binaryValue" with
      | none => exact .inl ⟨rfl, rfl⟩
      | some v =>
        have hother (hv : ∀ t, v ≠ .text t) :
            SentAs given (.object [("DataType", type), ("BinaryValue", v)]) :=
          .binary htype hs hb (.other hv)
        cases v with
        | text t =>
          cases ht : binary t with
          | ok b =>
            exact .inr (.inl ⟨_, by simp [ht, Except.map], rfl,
              .binary htype hs hb (.text (binary_eq_ok.1 ht))⟩)
          | error e =>
            exact .inr (.inr ⟨e, t, by simp [ht, Except.map], ⟨by simp [htype], hs, hb⟩, ht⟩)
        | _ => exact .inr (.inl ⟨_, rfl, rfl, hother fun t h => nomatch h⟩)

/-- An attribute that would be sent as what a text spells is converted just if it spells bytes. -/
theorem Spells.exists_ok_iff (h : Spells given t) :
    (∃ c, sendAttribute given = .ok c) ↔ ∃ b, Base64.decode t = .ok b := by
  obtain ⟨type, htype⟩ := Option.isSome_iff_exists.1 h.type
  simp only [sendAttribute_eq, htype, h.noString, h.spelled, ← binary_eq_ok]
  cases binary t <;> simp [Except.map]

/-! ## Attributes of a message -/

/-- The attributes that remain are those that are sent, in their order and under their names. -/
theorem sentAs_of_sendAttributes {converted : Entries}
    (h : sendAttributes attributes = .ok converted) :
    List.Forall₂ (fun given sent => sent.1 = given.1 ∧ SentAs given.2 sent.2)
      (attributes.filter fun a => isSent a.2) converted := by
  induction attributes generalizing converted with
  | nil =>
    obtain rfl := Except.ok.inj h
    exact .nil
  | cons a rest ih =>
    obtain ⟨name, given⟩ := a
    rw [sendAttributes] at h
    obtain ⟨c, hc, h⟩ := bind_eq_ok.1 h
    obtain ⟨others, hothers, h⟩ := bind_eq_ok.1 h
    obtain ⟨hnone, hsent⟩ | ⟨v, hsome, hsent, hv⟩ | ⟨e, t, herror, -, -⟩ :=
      sendAttribute_cases given
    · obtain rfl := Except.ok.inj (hc.symm.trans hnone)
      obtain rfl := Except.ok.inj h
      rw [List.filter_cons_of_neg (by simp [hsent])]
      exact ih hothers
    · obtain rfl := Except.ok.inj (hc.symm.trans hsome)
      obtain rfl := Except.ok.inj h
      rw [List.filter_cons_of_pos (by simp [hsent])]
      exact .cons ⟨rfl, hv⟩ (ih hothers)
    · cases herror.symm.trans hc

/-- Attributes are converted just if every text that stands for bytes spells some. -/
theorem sendAttributes_exists_ok_iff :
    (∃ converted, sendAttributes attributes = .ok converted) ↔
      ∀ a ∈ attributes, ∀ t, Spells a.2 t → ∃ b, Base64.decode t = .ok b := by
  induction attributes with
  | nil => exact iff_of_true ⟨([] : Entries), rfl⟩ (List.forall_mem_nil _)
  | cons a rest ih =>
    obtain ⟨name, given⟩ := a
    rw [List.forall_mem_cons, ← ih]
    constructor
    · rintro ⟨converted, h⟩
      rw [sendAttributes] at h
      obtain ⟨c, hc, h⟩ := bind_eq_ok.1 h
      obtain ⟨others, hothers, -⟩ := bind_eq_ok.1 h
      exact ⟨fun t ht => ht.exists_ok_iff.1 ⟨c, hc⟩, others, hothers⟩
    · rintro ⟨hgiven, others, hothers⟩
      rw [sendAttributes, hothers]
      obtain ⟨hnone, -⟩ | ⟨v, hsome, -, -⟩ | ⟨e, t, herror, hspells, -⟩ :=
        sendAttribute_cases given
      · exact ⟨others, by rw [hnone]; rfl⟩
      · exact ⟨(name, v) :: others, by rw [hsome]; rfl⟩
      · obtain ⟨c, hc⟩ := hspells.exists_ok_iff.2 (hgiven t hspells)
        cases herror.symm.trans hc

/-! ## Entries of send requests -/

/-- The entry of a send request with some attributes. -/
def entryWith (m : Message) (converted : Entries) : Value :=
  let base : Entries := [("Id", .text m.id), ("MessageBody", .text m.body)]
  let carried : Entries := [("MessageAttributes", .object converted)]
  .object (if converted.isEmpty then base else base ++ carried)

theorem sendEntry_eq_ok {entry : Value} : sendEntry m = .ok entry ↔
    ∃ converted, sendAttributes m.messageAttributes = .ok converted ∧
      m.entryWith converted = entry := by
  unfold sendEntry entryWith
  cases sendAttributes m.messageAttributes with
  | error e => exact iff_of_false (fun h => nomatch h) fun ⟨_, h, _⟩ => nomatch h
  | ok converted => simp [Bind.bind, Except.bind, pure, Except.pure]

/-- **A message that is sent on keeps its content.** It has an entry just if every text that stands
for bytes in its attributes spells some, and otherwise there is a `ValueError`. The entry holds the
id and the body as they are, and those of the attributes that are sent, in their order, each under
its name and with its data type; without any, it holds no attributes. If a text is, but for
characters in between, the base64 text of bytes, then those bytes are sent for it. -/
theorem content_kept (m : Message) :
    ((∃ entry, m.sendEntry = .ok entry) ↔
        ∀ a ∈ m.messageAttributes, ∀ t, Spells a.2 t → ∃ b, Base64.decode t = .ok b) ∧
      (∀ e, m.sendEntry = .error e → e.isA .valueError = true) ∧
      (∀ entry, m.sendEntry = .ok entry → ∃ converted, entry = m.entryWith converted ∧
        List.Forall₂ (fun given sent => sent.1 = given.1 ∧ SentAs given.2 sent.2)
          (m.messageAttributes.filter fun a => isSent a.2) converted) ∧
      ∀ b t, Base64.withoutFillers t = Base64.encode b →
        ∀ raw, Raw (.text t) raw ↔ raw = .bytes b := by
  refine ⟨?_, fun e => isA_of_sendEntry, fun entry h => ?_, fun b t ht raw => ?_⟩
  · rw [← sendAttributes_exists_ok_iff]
    constructor
    · rintro ⟨entry, h⟩
      obtain ⟨converted, hconverted, -⟩ := sendEntry_eq_ok.1 h
      exact ⟨converted, hconverted⟩
    · rintro ⟨converted, hconverted⟩
      exact ⟨_, sendEntry_eq_ok.2 ⟨converted, hconverted, rfl⟩⟩
  · obtain ⟨converted, hconverted, rfl⟩ := sendEntry_eq_ok.1 h
    exact ⟨converted, rfl, sentAs_of_sendAttributes hconverted⟩
  · have hdecode := Base64.decode_of_withoutFillers ht
    constructor
    · intro hraw
      cases hraw with
      | text hb => rw [Except.ok.inj (hb.symm.trans hdecode)]
      | other hother => exact absurd rfl (hother t)
    · rintro rfl
      exact .text hdecode

end Message

namespace Sample

/-- A message with an attribute of each kind, of which two are not sent. -/
def attributed : Message :=
  { order "a" "x" with
    messageAttributes := [
      ("untyped", [("stringValue", .text "s")]),
      ("both", [("dataType", .text "String"), ("stringValue", .text ""),
        ("binaryValue", .text "?")]),
      ("raw", [("dataType", .text ""), ("DataType", .text "Binary"), ("stringValue", .null),
        ("binaryValue", .text "YQ\n==")]),
      ("empty", [("dataType", .text "String"), ("stringValue", .null)])] }

/-- A message with an attribute whose text lacks its pads. -/
def unpadded : Message :=
  { order "a" "x" with
    messageAttributes := [("k", [("dataType", .text "Binary"), ("binaryValue", .text "YQ")])] }

end Sample

namespace Message

/-- The bytes that are sent are those of the text without its line break. -/
theorem content_kept_sample :
    Base64.withoutFillers "YQ\n==" = Base64.encode [0x61] ∧
      Raw (.text "YQ\n==") (.bytes [0x61]) ∧
      ∃ converted, Sample.attributed.sendEntry = .ok (Sample.attributed.entryWith converted) ∧
        converted.map Prod.fst = ["both", "raw"] := by
  have hbytes : Base64.withoutFillers "YQ\n==" = Base64.encode [0x61] := by decide +kernel
  obtain ⟨-, -, hkept, hraw⟩ := content_kept Sample.attributed
  refine ⟨hbytes, (hraw _ _ hbytes _).2 rfl, ?_⟩
  have hentry : ∃ entry, Sample.attributed.sendEntry = .ok entry := ⟨_, rfl⟩
  obtain ⟨entry, hentry⟩ := hentry
  obtain ⟨converted, rfl, hconverted⟩ := hkept entry hentry
  refine ⟨converted, hentry, ?_⟩
  cases hconverted with
  | cons hboth hrest =>
    cases hrest with
    | cons hraw hnil =>
      cases hnil
      simp [hboth.1, hraw.1]

/-- A message need not have an entry: what is left of a text without its pads spells no bytes. -/
theorem not_sent : ¬∃ entry, Sample.unpadded.sendEntry = .ok entry := by
  have herror : ∃ e, Sample.unpadded.sendEntry = .error e := ⟨_, rfl⟩
  obtain ⟨e, he⟩ := herror
  rintro ⟨entry, h⟩
  cases he.symm.trans h

end Message
end PartialBatch
