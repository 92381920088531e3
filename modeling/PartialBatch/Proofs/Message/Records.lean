/-
# Which records are messages

Of a record the parts of a message are looked for, each under two keys (`parts`).  The record is a
message if every part accepts what it finds, and the message holds just that, with the defaults for
parts that are not there.  Any other record is refused for the first part, in the order of the parts
and not of the record, that does not accept it.

| part | must be there | may be |
| --- | --- | --- |
| id, receipt handle, source | yes | a text |
| body | no: empty | a text |
| attributes | no: none | an object of texts |
| message attributes | no: none | an object of objects |
| digest of the body, region | no: null | null or a text |

That is one statement (`records_exact`).  Entries under other keys and the order of entries have no
part in it, because only look-ups of the keys of parts are made (`ofRecord_congr`).

The error names the place where the part goes wrong, with the key of a wrong value inside an object
as faults tell it.  A key that holds a lone surrogate is not named as it is (`key_not_named`).
-/

import PartialBatch.Proofs.Entries
import PartialBatch.Proofs.Validation
import PartialBatch.Message.Record

namespace PartialBatch
namespace Message

/-! ## The parts of a message -/

namespace Part

def id : Part := ⟨"messageId", "message_id", none, .text⟩
def receiptHandle : Part := ⟨"receiptHandle", "receipt_handle", none, .text⟩
def body : Part := ⟨"body", "body", some (.text []), .text⟩
def source : Part := ⟨"eventSourceARN", "event_source_arn", none, .text⟩
def attributes : Part := ⟨"attributes", "attributes", some (.object []), .objectOf .text⟩
def messageAttributes : Part :=
  ⟨"messageAttributes", "message_attributes", some (.object []), .objectOf (.objectOf .any)⟩
def bodyDigest : Part := ⟨"md5OfBody", "md5_of_body", some .null, .optional .text⟩
def region : Part := ⟨"awsRegion", "aws_region", some .null, .optional .text⟩

end Part

/-- The parts of a message, in the order in which they are looked for. -/
def parts : List Part :=
  [Part.id, Part.receiptHandle, Part.body, Part.source, Part.attributes, Part.messageAttributes,
    Part.bodyDigest, Part.region]

/-- The keys under which parts are looked for. -/
def keys : List Text := parts.flatMap fun p => [p.key, p.name]

/-- The entries of a record under the keys of parts. -/
def known (es : Entries) : Entries := es.filter fun e => keys.contains e.1

variable {es es' : Entries} {m : Message}

/-! ## Reading a record -/

open FieldReader in
/-- Reading a record settles the parts of a message. -/
theorem settles_ofEntries (es : Entries) : (ofEntries es).Settles parts es :=
  (Checked.settles_pure Message.mk es)
    |>.seq (reads_text.settles_field Part.id rfl)
    |>.seq (reads_text.settles_field Part.receiptHandle rfl)
    |>.seq (reads_text.settles_field Part.body rfl)
    |>.seq (reads_text.settles_field Part.source rfl)
    |>.seq (reads_text.objectOf.settles_field Part.attributes rfl)
    |>.seq (reads_any.objectOf.objectOf.settles_field Part.messageAttributes rfl)
    |>.seq (reads_text.optional.settles_field Part.bodyDigest rfl)
    |>.seq (reads_text.optional.settles_field Part.region rfl)

/-- An object in an object holds what was found. -/
theorem eq_of_objects {place : List Text} {v : Value} {os : List (Text × Entries)}
    (h : FieldReader.any.objectOf.objectOf place v = .ok os) :
    v = .object (os.map fun e => (e.1, .object e.2)) := by
  refine FieldReader.eq_of_objectOf (f := Value.object) (fun {place v a} h => ?_) h
  have hany {place : List Text} {v w : Value} (h : FieldReader.any place v = .ok w) : v = w :=
    Except.ok.inj h
  simpa using FieldReader.eq_of_objectOf (f := fun v => v) hany h

/-- **A message holds what was found in its record**, and the defaults. -/
theorem found_of_ofEntries (h : ofEntries es = .ok m) :
    ∀ p ∈ parts, (p.value? es).or p.default? = Entries.get? m.toEntries p.name := by
  obtain ⟨f₇, region, h₇, hregion, rfl⟩ := Checked.seq_eq_ok.1 h
  obtain ⟨f₆, digest, h₆, hdigest, rfl⟩ := Checked.seq_eq_ok.1 h₇
  obtain ⟨f₅, objects, h₅, hobjects, rfl⟩ := Checked.seq_eq_ok.1 h₆
  obtain ⟨f₄, texts, h₄, htexts, rfl⟩ := Checked.seq_eq_ok.1 h₅
  obtain ⟨f₃, source, h₃, hsource, rfl⟩ := Checked.seq_eq_ok.1 h₄
  obtain ⟨f₂, body, h₂, hbody, rfl⟩ := Checked.seq_eq_ok.1 h₃
  obtain ⟨f₁, handle, h₁, hhandle, rfl⟩ := Checked.seq_eq_ok.1 h₂
  obtain ⟨f₀, id, h₀, hid, rfl⟩ := Checked.seq_eq_ok.1 h₁
  obtain rfl := Except.ok.inj h₀
  simp only [parts, List.forall_mem_cons]
  refine ⟨?_, ?_, ?_, ?_, ?_, ?_, ?_, ?_, List.forall_mem_nil _⟩
  · exact FieldReader.found_of_field FieldReader.eq_of_text hid
  · exact FieldReader.found_of_field FieldReader.eq_of_text hhandle
  · exact FieldReader.found_of_field FieldReader.eq_of_text hbody
  · exact FieldReader.found_of_field FieldReader.eq_of_text hsource
  · exact FieldReader.found_of_field (FieldReader.eq_of_objectOf FieldReader.eq_of_text) htexts
  · exact FieldReader.found_of_field eq_of_objects hobjects
  · have hfound :=
      FieldReader.found_of_field (FieldReader.eq_of_optional FieldReader.eq_of_text) hdigest
    cases digest <;> exact hfound
  · have hfound :=
      FieldReader.found_of_field (FieldReader.eq_of_optional FieldReader.eq_of_text) hregion
    cases region <;> exact hfound

theorem ofRecord_object (es : Entries) : ofRecord (.object es) =
    match ofEntries es with
    | .ok m => .ok m
    | .error faults => .error (.invalidMessage faults.first ((es.get? "messageId").getD .null)) :=
  rfl

/-- Only what is under the keys of parts matters. -/
theorem ofRecord_congr (h : ∀ key ∈ keys, es.get? key = es'.get? key) :
    ofRecord (.object es) = ofRecord (.object es') := by
  simp only [keys, parts, List.flatMap_cons, List.flatMap_nil, List.cons_append, List.nil_append,
    List.forall_mem_cons, Part.id, Part.receiptHandle, Part.body, Part.source, Part.attributes,
    Part.messageAttributes, Part.bodyDigest, Part.region] at h
  obtain ⟨hid, hid', hhandle, hhandle', hbody, -, hsource, hsource', htexts, -, hobjects, hobjects',
    hdigest, hdigest', hregion, hregion', -⟩ := h
  have hfields : ofEntries es = ofEntries es' := by
    unfold ofEntries
    dsimp only
    rw [FieldReader.field_congr hid hid', FieldReader.field_congr hhandle hhandle',
      FieldReader.field_congr hbody hbody, FieldReader.field_congr hsource hsource',
      FieldReader.field_congr htexts htexts, FieldReader.field_congr hobjects hobjects',
      FieldReader.field_congr hdigest hdigest', FieldReader.field_congr hregion hregion']
  rw [ofRecord_object, ofRecord_object, hfields, hid]

/-- Records with the same known entries are the same, in whatever order, and whatever else they
hold. -/
theorem ofRecord_of_known (hperm : (known es).Perm (known es'))
    (hnodup : ((known es).map Prod.fst).Nodup) :
    ofRecord (.object es') = ofRecord (.object es) := by
  refine ofRecord_congr fun key hkey => ?_
  have hkept : keys.contains key = true := by simpa using hkey
  calc es'.get? key = Entries.get? (known es') key := (Entries.get?_filter hkept).symm
    _ = Entries.get? (known es) key := (Entries.get?_perm hperm hnodup).symm
    _ = es.get? key := Entries.get?_filter hkept

/-- **Reading a record is exact.** It succeeds if and only if every part of a message accepts what
the record has for it, and the message then holds what was found, or the default of a part that is
not there. Neither the order of the known entries nor any other entry matters. A record that is not
in order is refused for the first part that does not accept it: the error is an
`InvalidMessageError` whose field is the place where that part goes wrong, the keys in it as faults
tell them, and whose id is what the record has under `messageId`, if anything. In particular a wrong
value under the first key of a part is refused whatever stands under the second. -/
theorem records_exact (es : Entries) :
    ((∃ m, ofRecord (.object es) = .ok m) ↔ ∀ p ∈ parts, p.Accepts es) ∧
      (∀ m, ofRecord (.object es) = .ok m →
        ∀ p ∈ parts, Entries.get? m.toEntries p.name = (p.value? es).or p.default?) ∧
      (∀ es', (known es).Perm (known es') → ((known es).map Prod.fst).Nodup →
        ofRecord (.object es') = ofRecord (.object es)) ∧
      ((¬∀ p ∈ parts, p.Accepts es) →
        ∃ before p after place e, parts = before ++ p :: after ∧ (∀ q ∈ before, q.Accepts es) ∧
          ¬p.Accepts es ∧ p.Blames es place ∧ ofRecord (.object es) = .error e ∧
          e.Records .invalidMessage "INVALID_MESSAGE"
            [("message_id", (es.get? "messageId").getD .null),
              ("field", .text (Text.join "." place))]) ∧
      ∀ p ∈ parts, ∀ v, es.get? p.key = some v → ¬p.shape.Admits v →
        ∃ e, ofRecord (.object es) = .error e := by
  have hsettles := settles_ofEntries es
  have hok (m : Message) : ofRecord (.object es) = .ok m ↔ ofEntries es = .ok m := by
    rw [ofRecord_object]
    cases ofEntries es <;> simp
  have hiff : (∃ m, ofRecord (.object es) = .ok m) ↔ ∀ p ∈ parts, p.Accepts es := by
    simp only [hok]
    exact hsettles.exists_ok_iff
  refine ⟨hiff, fun m hm p hp => ?_, fun es' => ofRecord_of_known, fun hnot => ?_,
    fun p hp v hv hadmits => ?_⟩
  · exact (found_of_ofEntries ((hok m).1 hm) p hp).symm
  · cases hread : ofEntries es with
    | ok m => exact absurd (hsettles.accepts hread) hnot
    | error faults =>
      obtain ⟨before, p, after, hparts, hbefore, hblames⟩ := hsettles.refuses hread
      refine ⟨before, p, after, faults.first.place,
        .invalidMessage faults.first ((es.get? "messageId").getD .null), hparts, hbefore,
        hblames.not_accepts, hblames, ?_, ⟨rfl, rfl, rfl, rfl⟩⟩
      rw [ofRecord_object, hread]
  · cases hread : ofRecord (.object es) with
    | error e => exact ⟨e, rfl⟩
    | ok m =>
      have haccepts := hiff.1 ⟨m, hread⟩ p hp
      simp only [Part.Accepts, Part.value?, hv, Option.some_or] at haccepts
      exact absurd haccepts hadmits

end Message

namespace Sample

/-- A record with two faults, neither of them at the first part of the record: a message attribute
that is no object, and before it a region that is no text. -/
def faulty : Entries :=
  [("awsRegion", .int 1), ("aws_region", .text "eu"), ("trace", .null),
    ("messageAttributes", .object [("k", .object []), ("l", .text "x"), ("m", .null)]),
    ("receipt_handle", .text "rh"), ("messageId", .text "a"),
    ("eventSourceARN", .text "arn:aws:sqs:eu:1:orders")]

end Sample

namespace Message

/-- The message attribute is at fault first, since the region is looked for last. The order of the
record and its unknown entry do not matter. -/
theorem records_exact_sample :
    (known Sample.faulty).Perm (known Sample.faulty.reverse) ∧
      ((known Sample.faulty).map Prod.fst).Nodup ∧ (¬∀ p ∈ parts, p.Accepts Sample.faulty) ∧
      Part.region.key ∈ Sample.faulty.map Prod.fst ∧ ¬Part.region.shape.Admits (.int 1) ∧
      ∃ p ∈ parts, ∃ place e, p.Blames Sample.faulty place ∧
        Text.join "." place = "messageAttributes.l" ∧
        ofRecord (.object Sample.faulty.reverse) = .error e := by
  have hread : ofRecord (.object Sample.faulty) =
      .error (.invalidMessage ⟨["messageAttributes", "l"], .object⟩ (.text "a")) := rfl
  have hperm : (known Sample.faulty).Perm (known Sample.faulty.reverse) := by decide +kernel
  have hnodup : ((known Sample.faulty).map Prod.fst).Nodup := by decide +kernel
  have hregion : ¬Part.region.shape.Admits (.int 1) := by
    rintro (h | ⟨t, h⟩) <;> cases h
  obtain ⟨hiff, -, hsame, hblame, hwrong⟩ := records_exact Sample.faulty
  have hnot : ¬∀ p ∈ parts, p.Accepts Sample.faulty := by
    intro hall
    obtain ⟨m, hm⟩ := hiff.2 hall
    obtain ⟨e, he⟩ := hwrong Part.region (by simp [parts]) (.int 1) rfl hregion
    cases he.symm.trans hm
  obtain ⟨before, p, after, place, e, hparts, -, -, hblames, he, hrecords⟩ := hblame hnot
  refine ⟨hperm, hnodup, hnot, by simp [Sample.faulty, Part.region], hregion, p, by simp [hparts],
    place, e, hblames, ?_, (hsame _ hperm hnodup).trans he⟩
  obtain rfl := Except.error.inj (hread.symm.trans he)
  have hfacts := congrArg (fun facts => Entries.get? facts "field") hrecords.notes
  exact (Value.text.inj (Option.some.inj hfacts)).symm

end Message

namespace Sample

/-- A key of one lone surrogate. -/
def loneKey : Text := [.surrogate 0]

/-- A record of required parts only. -/
def bareRecord : Entries :=
  [("messageId", .text "a"), ("receiptHandle", .text "rh"),
    ("eventSourceARN", .text "arn:aws:sqs:eu:1:orders")]

/-- Attributes with a wrong value under the lone surrogate. -/
def loneAttribute : Text × Value := ("attributes", .object [(loneKey, .int 1)])

end Sample

namespace Message

/-- A message is made of a record without the attributes, whose only value is wrong.  With them the
field of the error is not `attributes` and the key: another key is named in its place. -/
theorem key_not_named :
    (∃ m, ofRecord (.object Sample.bareRecord) = .ok m) ∧
    ∃ e, ofRecord (.object (Sample.bareRecord ++ [Sample.loneAttribute])) = .error e ∧
      e.cls = .invalidMessage ∧
      Entries.get? e.notes "field" = some (.text "attributes.\ufffd\ufffd\ufffd") ∧
      Entries.get? e.notes "field" ≠
        some (.text (Text.join "." ["attributes", Sample.loneKey])) := by
  have hread : ofRecord (.object (Sample.bareRecord ++ [Sample.loneAttribute])) =
      .error (.invalidMessage ⟨["attributes", "\ufffd\ufffd\ufffd"], .text⟩ (.text "a")) := rfl
  exact ⟨⟨_, rfl⟩, _, hread, rfl, rfl, by decide +kernel⟩

end Message
end PartialBatch
