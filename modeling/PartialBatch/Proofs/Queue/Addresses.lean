/-
# Addresses and their URLs

Messages are grouped by the URLs of their queues, and what is deleted is named by a URL.  That is
right if different queues have different URLs, which does not go without saying: a region may hold
anything but a colon, points and slashes included.

| in a URL | told by |
| --- | --- |
| name | what follows the last slash (`append_cons_inj`) |
| account | what stands between the last two |
| region | the rest, less what is the same in every URL |

So if account and name have no slash, the URL tells the address (`url_inj`), and only the partition
of a resource name is lost.  Which texts are resource names is said by their fields, counted from the
left (`Text.field`), and not by the way in which they are cut (`splitOn_eq_fields`).
-/

import PartialBatch.Proofs.Batch.NoLoss
import Mathlib.Data.List.Infix

namespace PartialBatch

/-! ## Fields of a text -/

namespace Text

variable {c : CodePoint} {s t x y : Text}

/-- The field of a text with a number: what stands after so many separators, up to the next one. -/
def field (separator : CodePoint) : Nat → Text → Text
  | 0, t => t.takeWhile (· ≠ separator)
  | n + 1, t => field separator n (t.dropWhile (· ≠ separator)).tail

theorem field_zero_cons {d : CodePoint} :
    field c 0 (d :: t) = if d = c then [] else d :: field c 0 t := by
  by_cases hd : d = c <;> simp [field, hd]

theorem field_succ_cons {d : CodePoint} (n : Nat) :
    field c (n + 1) (d :: t) = if d = c then field c n t else field c (n + 1) t := by
  by_cases hd : d = c <;> simp [field, hd]

/-- **A text is cut into its fields**, one more than it has separators. -/
theorem splitOn_eq_fields (c : CodePoint) (t : Text) :
    t.splitOn c = (List.range (t.count c + 1)).map fun n => field c n t := by
  have hfirst (k : Nat) (f : Nat → Text) :
      (List.range (k + 1)).map f = f 0 :: (List.range k).map fun n => f (n + 1) := by
    rw [List.range_succ_eq_map, List.map_cons, List.map_map]
    rfl
  induction t with
  | nil => rfl
  | cons d rest ih =>
    rw [splitOn]
    by_cases hd : d = c
    · rw [if_pos hd, hd, List.count_cons_self, hfirst, ih]
      simp only [field_zero_cons, field_succ_cons, if_pos]
    · rw [if_neg hd, List.count_cons_of_ne (by simpa using hd), ih, hfirst, hfirst]
      simp only [field_zero_cons, field_succ_cons, if_neg hd]

/-- What follows the last separator of a text tells where it is cut. -/
theorem append_cons_inj (hx : c ∉ x) (hy : c ∉ y) : s ++ c :: x = t ++ c :: y ↔ s = t ∧ x = y := by
  constructor
  · intro h
    obtain ⟨mid, rfl, hmid⟩ | ⟨mid, rfl, hmid⟩ := List.append_eq_append_iff.1 h
    · cases mid with
      | nil => simpa using hmid
      | cons d mid =>
        obtain ⟨rfl, rfl⟩ := List.cons.inj hmid
        simp at hx
    · cases mid with
      | nil => simpa [eq_comm] using hmid
      | cons d mid =>
        obtain ⟨rfl, rfl⟩ := List.cons.inj hmid
        simp at hy
  · rintro ⟨rfl, rfl⟩
    rfl

end Text

namespace QueueAddress

variable {a b : QueueAddress} {arn : Text}

/-! ## Resource names -/

/-- Whether a text is the resource name of a queue: it has five colons, and the fields before the
first and after the second of them are fixed. -/
def IsArn (arn : Text) : Prop :=
  arn.count (CodePoint.scalar ':') = 5 ∧ arn.field ':' 0 = "arn" ∧ arn.field ':' 2 = "sqs"

instance : Decidable (IsArn arn) := inferInstanceAs (Decidable (_ ∧ _))

/-- The address in the last three fields of a resource name. -/
def inArn (arn : Text) : QueueAddress := ⟨arn.field ':' 3, arn.field ':' 4, arn.field ':' 5⟩

theorem ofArn?_of_isArn (h : IsArn arn) : ofArn? arn = some (inArn arn) := by
  obtain ⟨hcount, hscheme, hservice⟩ := h
  have hfields : arn.splitOn ':' = [arn.field ':' 0, arn.field ':' 1, arn.field ':' 2,
      arn.field ':' 3, arn.field ':' 4, arn.field ':' 5] := by
    rw [Text.splitOn_eq_fields, hcount]
    rfl
  unfold ofArn?
  rw [hfields]
  exact if_pos ⟨hscheme, hservice⟩

theorem isArn_of_ofArn? (h : ofArn? arn = some a) : IsArn arn := by
  unfold ofArn? at h
  split at h
  · rename_i scheme partition service region account name hfields
    have hlength := congrArg List.length hfields
    rw [Text.splitOn_eq_fields] at hfields hlength
    have hcount : arn.count (CodePoint.scalar ':') = 5 := by simpa using hlength
    rw [hcount] at hfields
    obtain ⟨hscheme, -, hservice, -⟩ : arn.field ':' 0 = scheme ∧ arn.field ':' 1 = partition ∧
        arn.field ':' 2 = service ∧ _ := by simpa [List.range_succ] using hfields
    split at h
    · rename_i hfixed
      exact ⟨hcount, hscheme.trans hfixed.1, hservice.trans hfixed.2⟩
    · cases h
  · cases h

/-- **A resource name has the URL of the address in it, and any other text has none.** -/
theorem urlOfArn_eq (arn : Text) : urlOfArn arn =
    if IsArn arn then .ok (inArn arn).url
    else .error (.saying .valueError ("Not an SQS queue ARN: " ++ arn.quoted)) := by
  unfold urlOfArn
  by_cases h : IsArn arn
  · rw [ofArn?_of_isArn h, if_pos h]
  · rw [if_neg h]
    cases harn : ofArn? arn with
    | none => rfl
    | some a => exact absurd (isArn_of_ofArn? harn) h

/-! ## URLs -/

/-- Whether account and name have no slash. -/
def IsPlain (a : QueueAddress) : Prop :=
  CodePoint.scalar '/' ∉ a.account ∧ CodePoint.scalar '/' ∉ a.name

instance : Decidable a.IsPlain := inferInstanceAs (Decidable (_ ∧ _))

/-- **The URL of a queue tells its address**, if account and name have no slash. -/
theorem url_inj (ha : a.IsPlain) (hb : b.IsPlain) : a.url = b.url ↔ a = b := by
  constructor
  · intro h
    obtain ⟨region, account, name⟩ := a
    obtain ⟨region', account', name'⟩ := b
    have hparts (r ac n : Text) : url ⟨r, ac, n⟩ =
        ((Text.ofString "https://sqs." ++ r ++ ".amazonaws.com") ++ CodePoint.scalar '/' :: ac) ++
          CodePoint.scalar '/' :: n := by
      have hslash : Text.ofString ".amazonaws.com/" =
        Text.ofString ".amazonaws.com" ++ [CodePoint.scalar '/'] := rfl
      have hlast : Text.ofString "/" = [CodePoint.scalar '/'] := rfl
      simp [url, hslash, hlast]
    rw [hparts, hparts, Text.append_cons_inj ha.2 hb.2, Text.append_cons_inj ha.1 hb.1] at h
    obtain ⟨⟨hregion, rfl⟩, rfl⟩ := h
    obtain rfl := List.append_cancel_left (List.append_cancel_right hregion)
    rfl
  · rintro rfl
    rfl

end QueueAddress

/-! ## Messages -/

open QueueAddress (IsArn inArn urlOfArn)

namespace Message

variable {m n : Message}

/-- The address in the source of a message. -/
def address (m : Message) : QueueAddress := inArn m.source

/-- Whether the source of a message is a resource name whose account and name have no slash. -/
def IsAddressed (m : Message) : Prop := IsArn m.source ∧ m.address.IsPlain

instance : Decidable m.IsAddressed := inferInstanceAs (Decidable (_ ∧ _))

/-- A message tells its queue exactly if its source is the resource name of one. -/
theorem queueUrl_eq (m : Message) : m.queueUrl =
    if IsArn m.source then .ok m.address.url
    else .error (.saying .valueError ("Not an SQS queue ARN: " ++ m.source.quoted)) :=
  QueueAddress.urlOfArn_eq _

theorem IsAddressed.queueUrl_eq (h : m.IsAddressed) : m.queueUrl = .ok m.address.url :=
  m.queueUrl_eq.trans (if_pos h.1)

/-- Messages come from the same URL exactly if they come from the same address. -/
theorem IsAddressed.queueUrl_inj (hm : m.IsAddressed) (hn : n.IsAddressed) :
    m.queueUrl = n.queueUrl ↔ m.address = n.address := by
  rw [hm.queueUrl_eq, hn.queueUrl_eq, Except.ok.injEq, QueueAddress.url_inj hm.2 hn.2]

end Message

/-- **Addressed messages are grouped by their addresses.** -/
theorem QueueGroups.exists_groups {ms : List Message} (hms : ∀ m ∈ ms, m.IsAddressed) :
    ∃ groups, QueueGroups.ofMessages ms = .ok groups ∧ ∀ m ∈ ms, ∀ n ∈ ms,
      (∃ group ∈ groups, m ∈ group.2 ∧ n ∈ group.2) ↔ m.address = n.address := by
  obtain ⟨groups, hgroups⟩ := exists_ofMessages fun m hm => ⟨_, (hms m hm).queueUrl_eq⟩
  refine ⟨groups, hgroups, fun m hm n hn => ?_⟩
  rw [(QueueGroups.sorts_of_ofMessages hgroups).together_iff hm hn,
    (hms m hm).queueUrl_inj (hms n hn)]

namespace Processor

variable {p : Processor} {ms : List Message} {handler : Handler} {t : List Event}
  {x : Except Error (List Value)}

/-- **A URL to delete by is that of one address**, if all messages of the batch are addressed: all
messages from it, and no others, have that URL. -/
theorem address_of_delete (hms : ∀ m ∈ ms, m.IsAddressed) (h : (p.process ms handler).Ends t x) :
    ∃ handled outcomes rest, t = handled ++ rest ∧ p.Stages ms handler handled outcomes rest x ∧
      ∀ c ∈ calls rest, c.request.isDelete → ∃ u es, c.request = .delete (.text u) (.list es) ∧
        ∀ entry ∈ es, ∃ m ∈ ms, entry = m.deleteEntry ∧
          ∀ n ∈ ms, n.queueUrl = .ok u ↔ n.address = m.address := by
  obtain ⟨handled, outcomes, rest, rfl, hstages⟩ := ends_process.1 h
  refine ⟨handled, outcomes, rest, rfl, hstages, fun c hc hdelete => ?_⟩
  obtain ⟨hbatch, stop, hreconciled, -⟩ := hstages.reconciled (List.ne_nil_of_mem hc)
  obtain ⟨before, after, hsplit⟩ := List.append_of_mem hc
  obtain ⟨u, es, hr, hes⟩ := hreconciled.of_delete hsplit hdelete
  refine ⟨u, es, hr, fun entry hentry => ?_⟩
  obtain ⟨m, hurl, rfl, hm⟩ := hes entry hentry
  have hmem : m ∈ ms := hbatch ▸ (settled_of_reconciled hm).mem
  refine ⟨m, hmem, rfl, fun n hn => ?_⟩
  rw [← hurl, (hms n hn).queueUrl_inj (hms m hmem)]

/-- **Queue URLs identify queues.** A text has the URL of a queue exactly if it is a resource name,
and resource names whose accounts and names have no slash have the same URL exactly if they agree on
region, account and name. So messages with such sources are grouped by their addresses, and what a
course of a batch deletes by a URL are messages of the one address that has it. -/
theorem urls_identify_queues :
    (∀ arn, ((∃ url, urlOfArn arn = .ok url) ↔ IsArn arn) ∧ (¬IsArn arn → urlOfArn arn =
      .error (.saying .valueError ("Not an SQS queue ARN: " ++ arn.quoted)))) ∧
    (∀ arn arn', IsArn arn → (inArn arn).IsPlain → IsArn arn' → (inArn arn').IsPlain →
      (urlOfArn arn = urlOfArn arn' ↔ (inArn arn).region = (inArn arn').region ∧
        (inArn arn).account = (inArn arn').account ∧ (inArn arn).name = (inArn arn').name)) ∧
    (∀ ms, (∀ m ∈ ms, m.IsAddressed) → ∃ groups, QueueGroups.ofMessages ms = .ok groups ∧
      ∀ m ∈ ms, ∀ n ∈ ms,
        (∃ group ∈ groups, m ∈ group.2 ∧ n ∈ group.2) ↔ m.address = n.address) ∧
    ∀ (p : Processor) (ms : List Message) (handler : Handler) (t : List Event)
      (x : Except Error (List Value)), (∀ m ∈ ms, m.IsAddressed) → (p.process ms handler).Ends t x →
      ∃ handled outcomes rest, t = handled ++ rest ∧ p.Stages ms handler handled outcomes rest x ∧
        ∀ c ∈ calls rest, c.request.isDelete → ∃ u es, c.request = .delete (.text u) (.list es) ∧
          ∀ entry ∈ es, ∃ m ∈ ms, entry = m.deleteEntry ∧
            ∀ n ∈ ms, n.queueUrl = .ok u ↔ n.address = m.address := by
  refine ⟨fun arn => ?_, fun arn arn' harn hplain harn' hplain' => ?_, ?_, ?_⟩
  · rw [QueueAddress.urlOfArn_eq]
    by_cases harn : IsArn arn <;> simp [harn]
  · rw [QueueAddress.urlOfArn_eq, QueueAddress.urlOfArn_eq, if_pos harn, if_pos harn',
      Except.ok.injEq, QueueAddress.url_inj hplain hplain', QueueAddress.mk.injEq]
  · intro ms hms
    exact QueueGroups.exists_groups hms
  · intro p ms handler t x hms h
    exact address_of_delete hms h

end Processor

namespace Sample

/-- A message with a source of its own. -/
def sent (source id body : Text) : Message := { order id body with source := source }

/-- Messages of two queues of one name. The first two sources differ in their partitions, and the
region of the third has points and a slash. -/
def scattered : List Message :=
  [sent "arn:aws:sqs:eu:1:orders" "a" "\x7b\x7d", sent "arn:aws-cn:sqs:eu:1:orders" "b" "\x7b\x7d",
    sent "arn:aws:sqs:eu.amazonaws.com/1:1:orders" "a" "\x7b\x7d",
    sent "arn:aws:sqs:eu:1:orders" "c" "[]"]

end Sample

namespace Processor

/-- Such a batch: the first two messages are deleted in one request, and the third in another. -/
theorem urls_identify_queues_sample : ∃ t x, (∀ m ∈ Sample.scattered, m.IsAddressed) ∧
    (Sample.processor.process Sample.scattered Consumer.handler).Ends t x ∧
    ((calls t).map Call.request).take 2 =
      [.delete (.text "https://sqs.eu.amazonaws.com/1/orders")
          (.list ((Sample.scattered.take 2).map Message.deleteEntry)),
        .delete (.text "https://sqs.eu.amazonaws.com/1.amazonaws.com/1/orders")
          (.list (((Sample.scattered.drop 2).take 1).map Message.deleteEntry))] ∧
    (∃ groups, QueueGroups.ofMessages Sample.scattered = .ok groups ∧
      ∀ m ∈ Sample.scattered, ∀ n ∈ Sample.scattered,
        (∃ group ∈ groups, m ∈ group.2 ∧ n ∈ group.2) ↔ m.address = n.address) ∧
    ∃ handled outcomes rest, t = handled ++ rest ∧
      Sample.processor.Stages Sample.scattered Consumer.handler handled outcomes rest x ∧
      ∀ c ∈ calls rest, c.request.isDelete → ∃ u es, c.request = .delete (.text u) (.list es) ∧
        ∀ entry ∈ es, ∃ m ∈ Sample.scattered, entry = m.deleteEntry ∧
          ∀ n ∈ Sample.scattered, n.queueUrl = .ok u ↔ n.address = m.address := by
  have hms : ∀ m ∈ Sample.scattered, m.IsAddressed := by decide +kernel
  have h := Run.ends_exec (.service Sample.service)
    (Sample.processor.process Sample.scattered Consumer.handler) ()
  obtain ⟨-, -, hgroups, hdeletes⟩ := urls_identify_queues
  exact ⟨_, _, hms, h, by decide +kernel, hgroups _ hms, hdeletes _ _ _ _ _ hms h⟩

end Processor
end PartialBatch
