/-
# Base64 texts are decoded to their bytes

Four letters spell three bytes, so the decoder comes back to the first place of a group with every
three bytes of a text that `encode` writes, and what is left of it is the text of the other bytes.
That carries the induction (`decodeFrom_encode`); the last group is shorter, and its pads end the
decoding.

Between the characters of such a text others may stand, as line breaks do: whatever is ASCII and
neither a letter nor a pad is passed over in every state (`decodeFrom_filler`).  So a text is
decoded to the bytes whose text it is without those (`decode_of_withoutFillers`).
-/

import PartialBatch.Base64
import Mathlib.Data.List.Basic

namespace PartialBatch

namespace Base64

/-- The letters of base64 texts. -/
def alphabet : Text := (List.range 64).map letter

/-- Whether a character may stand between those of a base64 text. -/
def isFiller (c : CodePoint) : Bool :=
  c.isAscii && c != CodePoint.scalar '=' && !alphabet.contains c

/-- A text without what may stand between the characters of a base64 text. -/
def withoutFillers (t : Text) : Text := t.filter fun c => !isFiller c

variable {st : State} {c : CodePoint} {rest t : Text} {n p q r s : Nat} {b : List UInt8}

/-! ## Letters and fillers -/

theorem bits?_letter (h : n < 64) : bits? (letter n) = some n := by
  have hall : ∀ n < 64, bits? (letter n) = some n := by decide +kernel
  exact hall n h

theorem letter_ne_pad (h : n < 64) : letter n ≠ CodePoint.scalar '=' := by
  intro hpad
  have hletter := bits?_letter h
  rw [hpad] at hletter
  cases hletter

theorem isAscii_letter (h : n < 64) : (letter n).isAscii = true := by
  have hall : ∀ n < 64, (letter n).isAscii = true := by decide +kernel
  exact hall n h

/-- What has bits is the letter of these. -/
theorem mem_alphabet (hascii : c.isAscii = true) (h : bits? c = some n) : c ∈ alphabet := by
  have hall : ∀ n < 128, (bits? (CodePoint.ofNumber n)).all fun k =>
      k < 64 && letter k == CodePoint.ofNumber n := by decide +kernel
  have hnumber : c.number < 128 := by simpa [CodePoint.isAscii] using hascii
  have hc := hall c.number hnumber
  rw [c.ofNumber_number, h, Option.all_some, Bool.and_eq_true, decide_eq_true_iff, beq_iff_eq] at hc
  exact List.mem_map.2 ⟨n, List.mem_range.2 hc.1, hc.2⟩

theorem bits?_filler (h : isFiller c = true) : bits? c = none ∧ c ≠ CodePoint.scalar '=' := by
  simp only [isFiller, Bool.and_eq_true, bne_iff_ne, Bool.not_eq_true', List.contains_eq_mem,
    decide_eq_false_iff_not] at h
  obtain ⟨⟨hascii, hpad⟩, hletter⟩ := h
  refine ⟨Option.eq_none_iff_forall_ne_some.2 fun n hn => ?_, hpad⟩
  exact hletter (mem_alphabet hascii hn)

/-! ## One character -/

theorem decodeFrom_letter (h : n < 64) : decodeFrom st (letter n :: rest) =
    match st.add n with
    | (none, st') => decodeFrom st' rest
    | (some byte, st') => (decodeFrom st' rest).map (byte :: ·) := by
  have hbits := bits?_letter h
  rw [decodeFrom, if_neg (letter_ne_pad h)]
  split
  · rename_i hnone
    cases hbits.symm.trans hnone
  · rename_i k hk
    obtain rfl := Option.some.inj (hbits.symm.trans hk)
    rfl

/-- A filler is passed over. -/
theorem decodeFrom_filler (h : isFiller c = true) :
    decodeFrom st (c :: rest) = decodeFrom st rest := by
  obtain ⟨hbits, hpad⟩ := bits?_filler h
  rw [decodeFrom, if_neg hpad, hbits]

/-- Fillers do not matter, wherever they stand. -/
theorem decodeFrom_withoutFillers (st : State) (t : Text) :
    decodeFrom st (withoutFillers t) = decodeFrom st t := by
  induction t generalizing st with
  | nil => rfl
  | cons c rest ih =>
    cases hc : isFiller c with
    | true =>
      rw [withoutFillers, List.filter_cons_of_neg (by simp [hc]), decodeFrom_filler hc]
      exact ih st
    | false =>
      rw [withoutFillers, List.filter_cons_of_pos (by simp [hc])]
      change decodeFrom st (c :: withoutFillers rest) = _
      rw [decodeFrom, decodeFrom]
      simp only [ih]

/-! ## Groups -/

/-- **Four letters are three bytes**, and decoding is at the first place again. -/
theorem decodeFrom_group (hst : st.place = 0) (hp : p < 64) (hq : q < 64) (hr : r < 64)
    (hs : s < 64) :
    decodeFrom st (letter p :: letter q :: letter r :: letter s :: rest) =
      (decodeFrom ⟨0, 0, 0, st.letters + 4⟩ rest).map fun bytes =>
        UInt8.ofNat (p * 4 + q / 16) :: UInt8.ofNat (q % 16 * 16 + r / 4) ::
          UInt8.ofNat (r % 4 * 64 + s) :: bytes := by
  rw [decodeFrom_letter hp]
  simp only [State.add, hst]
  rw [decodeFrom_letter hq]
  simp only [State.add]
  rw [decodeFrom_letter hr]
  simp only [State.add]
  rw [decodeFrom_letter hs]
  simp only [State.add]
  cases decodeFrom ⟨0, 0, 0, st.letters + 4⟩ rest <;> rfl

/-- Two letters and two pads are one byte, at the end. -/
theorem decodeFrom_one (hst : st.place = 0) (hp : p < 64) (hq : q < 64) :
    decodeFrom st [letter p, letter q, CodePoint.scalar '=', CodePoint.scalar '='] =
      .ok [UInt8.ofNat (p * 4 + q / 16)] := by
  rw [decodeFrom_letter hp]
  simp only [State.add, hst]
  rw [decodeFrom_letter hq]
  rfl

/-- Three letters and a pad are two bytes, at the end. -/
theorem decodeFrom_two (hst : st.place = 0) (hp : p < 64) (hq : q < 64) (hr : r < 64) :
    decodeFrom st [letter p, letter q, letter r, CodePoint.scalar '='] =
      .ok [UInt8.ofNat (p * 4 + q / 16), UInt8.ofNat (q % 16 * 16 + r / 4)] := by
  rw [decodeFrom_letter hp]
  simp only [State.add, hst]
  rw [decodeFrom_letter hq]
  simp only [State.add]
  rw [decodeFrom_letter hr]
  rfl

/-- A byte is put together again from its two parts. -/
theorem ofNat_eq {a : UInt8} {k : Nat} (h : k = a.toNat) : UInt8.ofNat k = a := by
  rw [h, UInt8.ofNat_toNat]

/-! ## Whole texts -/

/-- **Decoding undoes encoding**, from the first place of a group on. -/
theorem decodeFrom_encode (b : List UInt8) (st : State) (hst : st.place = 0) :
    decodeFrom st (encode b) = .ok b := by
  induction b using encode.induct generalizing st with
  | case1 => simp [encode, decodeFrom, hst]
  | case2 a =>
    have ha := a.toNat_lt
    rw [encode, decodeFrom_one hst (by omega) (by omega), ofNat_eq (a := a) (by omega)]
  | case3 a b _ _ _ =>
    have ha := a.toNat_lt
    have hb := b.toNat_lt
    rw [encode, decodeFrom_two hst (by omega) (by omega) (by omega), ofNat_eq (a := a) (by omega),
      ofNat_eq (a := b) (by omega)]
  | case4 a b c rest _ _ _ _ ih =>
    have ha := a.toNat_lt
    have hb := b.toNat_lt
    have hc := c.toNat_lt
    rw [encode, decodeFrom_group hst (by omega) (by omega) (by omega) (by omega), ih _ rfl,
      ofNat_eq (a := a) (by omega), ofNat_eq (a := b) (by omega), ofNat_eq (a := c) (by omega)]
    rfl

/-- The text of bytes is ASCII. -/
theorem isAscii_encode (b : List UInt8) : ∀ c ∈ encode b, c.isAscii = true := by
  have hpad : (CodePoint.scalar '=').isAscii = true := rfl
  induction b using encode.induct with
  | case1 => exact List.forall_mem_nil _
  | case2 a =>
    have ha := a.toNat_lt
    simp only [encode, List.forall_mem_cons]
    exact ⟨isAscii_letter (by omega), isAscii_letter (by omega), hpad, hpad, List.forall_mem_nil _⟩
  | case3 a b _ _ _ =>
    have ha := a.toNat_lt
    have hb := b.toNat_lt
    simp only [encode, List.forall_mem_cons]
    exact ⟨isAscii_letter (by omega), isAscii_letter (by omega), isAscii_letter (by omega), hpad,
      List.forall_mem_nil _⟩
  | case4 a b c rest _ _ _ _ ih =>
    have ha := a.toNat_lt
    have hb := b.toNat_lt
    have hc := c.toNat_lt
    simp only [encode, List.forall_mem_cons]
    exact ⟨isAscii_letter (by omega), isAscii_letter (by omega), isAscii_letter (by omega),
      isAscii_letter (by omega), ih⟩

/-- **A text is decoded to the bytes whose text it is without fillers.** -/
theorem decode_of_withoutFillers (h : withoutFillers t = encode b) : decode t = .ok b := by
  have hascii : t.all CodePoint.isAscii = true := by
    refine List.all_eq_true.2 fun c hc => ?_
    cases hfiller : isFiller c with
    | true =>
      simp only [isFiller, Bool.and_eq_true] at hfiller
      exact hfiller.1.1
    | false =>
      have hmem : c ∈ withoutFillers t := List.mem_filter.2 ⟨hc, by simp [hfiller]⟩
      exact isAscii_encode b c (h ▸ hmem)
  rw [decode, if_pos hascii, ← decodeFrom_withoutFillers, h]
  exact decodeFrom_encode b _ rfl

end Base64
end PartialBatch
