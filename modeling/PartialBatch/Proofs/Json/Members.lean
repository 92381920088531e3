/-
# Objects member by member

An object in JSON is a list of members, each the text of its key and a tree (`Members.named`).  What
holds of the object is said of its members:

| of the object | of its members |
| --- | --- |
| the value under a key | the last one with that key has it (`Members.get?_entries`) |
| depth and digits | each is within the limits (`Members.depth_le_iff`, `Members.digits_le_iff`) |

The members that values without parts take are within the limits on their own: texts and words
always, integers if their decimal text is (`Doc.limits_of_int`).  There is a member for each of
them, since every text can be written in pieces (`Piece.exists_textOf`) and every integer in digits.
-/

import PartialBatch.Proofs.Entries
import PartialBatch.Proofs.Json.Strings
import PartialBatch.Proofs.Text.Numerals

namespace PartialBatch
namespace Json

/-! ## Members -/

namespace Members

/-- The members of an object, each with the text of its key. -/
def named : Members → List (Text × Doc)
  | last key _ _ d _ => [(Piece.textOf key, d)]
  | more key _ _ d _ _ rest => (Piece.textOf key, d) :: rest.named

theorem entries_eq : (items : Members) → (es : Entries) →
    items.entries es = es.putAll (items.named.map fun m => (m.1, m.2.value))
  | last .., _ => rfl
  | more _ _ _ _ _ _ rest, _ => rest.entries_eq _

/-- **Under a key stands what the last member with that key names.** -/
theorem get?_entries (items : Members) (key : Text) : Entries.get? (items.entries []) key =
    (items.named.filter fun m => m.1 = key).getLast?.map fun m => m.2.value := by
  rw [entries_eq, Entries.get?_putAll, List.filter_map, List.getLast?_map, Option.map_map]
  change Option.or _ none = _
  rw [Option.or_none]
  rfl

theorem depth_le_iff {k : Nat} : (items : Members) →
    (items.depth ≤ k ↔ ∀ m ∈ items.named, m.2.depth ≤ k)
  | last .. => by simp [depth, named]
  | more _ _ _ _ _ _ rest => by
    rw [depth, named, Nat.max_le, List.forall_mem_cons, rest.depth_le_iff]

theorem digits_le_iff {k : Nat} : (items : Members) →
    (items.digits ≤ k ↔ ∀ m ∈ items.named, m.2.digits ≤ k)
  | last .. => by simp [digits, named]
  | more _ _ _ _ _ _ rest => by
    rw [digits, named, Nat.max_le, List.forall_mem_cons, rest.digits_le_iff]

end Members

/-- The members of a JSON text, if it is that of an object with any. -/
def Document.named (d : Document) : List (Text × Doc) :=
  match d.doc with
  | .object _ items => items.named
  | _ => []

theorem Document.exists_object {d : Document} {m : Text × Doc} (h : m ∈ d.named) :
    ∃ b items, d.doc = .object b items ∧ d.named = items.named := by
  obtain ⟨before, doc, after⟩ := d
  cases doc with
  | object b items => exact ⟨b, items, rfl, rfl⟩
  | _ => cases h

/-! ## Values without parts -/

variable {d : Doc} {n : Int} {t : Text} {c : CodePoint}

theorem Number.value_cases (x : Number) :
    (x.isInteger = true ∧ x.value =
        .int (if x.negative then -(Text.digitsValue x.whole) else Text.digitsValue x.whole)) ∨
      x.isInteger = false ∧ ∃ y, x.value = .float y := by
  unfold value
  cases h : x.isInteger with
  | true => exact .inl ⟨rfl, rfl⟩
  | false => exact .inr ⟨rfl, _, rfl⟩

namespace Doc

/-- A tree that names a text or null holds no container and no integer. -/
theorem limits_of_flat (h : d.value = .null ∨ ∃ t, d.value = .text t) :
    d.depth = 0 ∧ d.digits = 0 := by
  cases d with
  | word | string => exact ⟨rfl, rfl⟩
  | number x =>
    change x.value = _ ∨ ∃ t, x.value = _ at h
    obtain ⟨-, hx⟩ | ⟨-, y, hx⟩ := x.value_cases <;> simp [hx] at h
  | _ => simp [value] at h

/-- **The digits of an integer are those of its decimal text.** -/
theorem limits_of_int (h : d.value = .int n) :
    d.depth = 0 ∧ d.digits = (Text.ofNat n.natAbs).length := by
  cases d with
  | word w v hword =>
    have hwords : ∀ w ∈ words, w.2 ≠ .int n := by simp [words]
    exact absurd h (hwords _ hword)
  | number x =>
    refine ⟨rfl, ?_⟩
    change x.value = _ at h
    obtain ⟨hinteger, hx⟩ | ⟨-, y, hx⟩ := x.value_cases
    · have habs : n.natAbs = Text.digitsValue x.whole := by
        rw [← Value.int.inj (hx.symm.trans h)]
        split
        · rw [Int.natAbs_neg, Int.natAbs_natCast]
        · rw [Int.natAbs_natCast]
      change x.digits = _
      rw [Number.digits, if_pos hinteger, habs, Text.ofNat_digitsValue x.isWhole]
    · cases hx.symm.trans h
  | _ => cases h

end Doc

/-! ## Writing -/

theorem isBlank_nil : ∀ c ∈ ([] : Text), isSpace c = true := List.forall_mem_nil _

/-- No white space. -/
def Blank.none : Blank := ⟨[], isBlank_nil⟩

theorem allDigits_nil : AllDigits [] := List.forall_mem_nil _

/-- The number that is an integer in decimal. -/
def Number.ofInt (n : Int) : Number where
  negative := n < 0
  whole := Text.ofNat n.natAbs
  fraction := []
  exponent := none
  isWhole := Text.isWhole_ofNat _
  isFraction := allDigits_nil

theorem Number.value_ofInt (n : Int) : (ofInt n).value = .int n := by
  obtain ⟨-, h⟩ | ⟨h, -⟩ := (ofInt n).value_cases
  · rw [h]
    simp only [ofInt, Text.digitsValue_ofNat, decide_eq_true_eq]
    congr 1
    omega
  · cases h

instance (c : CodePoint) : Decidable (IsPlain c) := inferInstanceAs (Decidable (_ ∧ _ ∧ _))

/-- Every code point can be written so that it joins no other. -/
theorem Piece.exists_point (c : CodePoint) :
    ∃ p : Piece, p.point = c ∧ ∀ q, p.isPair q = false := by
  by_cases hplain : IsPlain c
  · exact ⟨.plain c hplain, rfl, fun _ => rfl⟩
  by_cases hquote : c = CodePoint.scalar '"' ∨ c = CodePoint.scalar '\\'
  · refine ⟨.short c c ?_, rfl, fun _ => rfl⟩
    obtain rfl | rfl := hquote <;> rfl
  have hnumber : c.number < 32 := by
    by_contra h
    exact hplain ⟨by omega, fun h => hquote (.inl h), fun h => hquote (.inr h)⟩
  -- what is left are the control characters, which are no halves of a pair
  have hhex : ∀ n < 32, hexNumber? (CodePoint.scalar '0') (CodePoint.scalar '0')
      (CodePoint.scalar (Nat.digitChar (n / 16))) (CodePoint.scalar (Nat.digitChar (n % 16))) =
        some n := by decide
  have hhigh : ∀ n < 32, (CodePoint.ofNumber n).isHighSurrogate = false := by decide
  refine ⟨.unicode _ _ _ _ c.number (hhex _ hnumber), c.ofNumber_number, fun q => ?_⟩
  cases q with
  | unicode => simp [isPair, hhigh _ hnumber]
  | _ => rfl

/-- **Every text can be written in pieces.** -/
theorem Piece.exists_textOf (t : Text) : ∃ ps, textOf ps = t := by
  induction t with
  | nil => exact ⟨[], rfl⟩
  | cons c t ih =>
    obtain ⟨p, rfl, halone⟩ := exists_point c
    obtain ⟨ps, rfl⟩ := ih
    exact ⟨p :: ps, textOf_alone fun q _ => halone q⟩

end Json
end PartialBatch
