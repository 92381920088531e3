/-
# Numbers and words as they are written

The reader takes as long a number as it can, so a number is read as it is written only if what is
behind it does not continue it (`Delimits`): no digit, no point, no letter of an exponent.  The part
of the reader for each part of a number has two lemmas here, one for the way from the text to the
part and one for the way back.

| part | to be read | as it was read |
| --- | --- | --- |
| digits before the point | `whole?_append` | `exists_of_whole?` |
| fraction | `fraction_append` | `fraction_spec` |
| exponent | `exponentText_append` | `exists_of_exponent?` |
| number | `Number.numeral?_append` | `Number.exists_of_numeral?` |
| word or number | `gives_atom_word`, `gives_atom_number` | `atom_cases` |

No word can be taken for a number or the other way round, which is seen from their first two code
points (`word_cases`, `Number.text_cases`).
-/

import PartialBatch.Proofs.Json.Syntax
import Mathlib.Data.List.TakeDrop
import Mathlib.Data.List.TakeWhile

namespace PartialBatch
namespace Json

/-! ## Digits -/

/-- Whether no digit stands at the front of a text. -/
def NoDigit (s : Text) : Prop := ∀ c ∈ s.head?, c.digit?.isSome = false

/-- Whether what stands at the front of a text does not continue a number. -/
def Delimits (s : Text) : Prop :=
  ∀ c ∈ s.head?, c.digit?.isSome = false ∧ c ≠ CodePoint.scalar '.' ∧ c ≠ CodePoint.scalar 'e' ∧
    c ≠ CodePoint.scalar 'E'

variable {s rest ds fs : Text}

theorem Delimits.noDigit (h : Delimits s) : NoDigit s := fun c hc => (h c hc).1

theorem takeDigits_append (hds : AllDigits ds) (hrest : NoDigit rest) :
    takeDigits (ds ++ rest) = (ds, rest) := by
  rw [takeDigits, List.span_eq_takeWhile_dropWhile, List.takeWhile_append_of_pos hds,
    List.dropWhile_append_of_pos hds]
  cases rest with
  | nil => simp
  | cons c rest => simp [hrest c rfl]

theorem takeDigits_spec (h : takeDigits s = (ds, rest)) : s = ds ++ rest ∧ AllDigits ds := by
  rw [takeDigits, List.span_eq_takeWhile_dropWhile] at h
  obtain ⟨rfl, rfl⟩ := Prod.mk.inj h
  exact ⟨List.takeWhile_append_dropWhile.symm, fun _ hc =>
    List.mem_takeWhile_imp (p := fun c : CodePoint => c.digit?.isSome) hc⟩

/-! ## Parts of a number -/

theorem whole?_append (hds : IsWhole ds) (hrest : NoDigit rest) :
    whole? (ds ++ rest) = some (ds, rest) := by
  rcases hds with rfl | ⟨hsome, hdigits, hzero⟩
  · rfl
  · have htake := takeDigits_append hdigits hrest
    obtain ⟨d, ds, rfl⟩ := List.exists_cons_of_ne_nil hsome
    unfold whole?
    split
    · rename_i heq
      exact absurd (congrArg some (List.cons.inj heq).1) hzero
    · rw [htake]

theorem exists_of_whole? (h : whole? s = some (ds, rest)) : s = ds ++ rest ∧ IsWhole ds := by
  unfold whole? at h
  split at h
  · obtain ⟨rfl, rfl⟩ := Prod.mk.inj (Option.some.inj h)
    exact ⟨rfl, .inl rfl⟩
  · rename_i hzero
    split at h
    · cases h
    · rename_i ds' rest' hnil htake
      obtain ⟨rfl, rfl⟩ := Prod.mk.inj (Option.some.inj h)
      obtain ⟨rfl, hdigits⟩ := takeDigits_spec htake
      refine ⟨rfl, .inr ⟨fun h => hnil (by rw [h]) , hdigits, fun hhead => ?_⟩⟩
      obtain ⟨ds, rfl⟩ := List.head?_eq_some_iff.1 hhead
      exact hzero _ rfl

theorem fraction_append (hfs : AllDigits fs) (hrest : NoDigit rest)
    (hpoint : ∀ c ∈ rest.head?, c ≠ CodePoint.scalar '.') :
    fraction (Number.fractionText fs ++ rest) = (fs, rest) := by
  unfold Number.fractionText
  split
  · rename_i hnil
    subst hnil
    rw [List.nil_append]
    unfold fraction
    split
    · exact absurd rfl (hpoint _ rfl)
    · rfl
  · rename_i hsome
    unfold fraction
    simp only [List.cons_append, takeDigits_append hfs hrest]

theorem fraction_spec (h : fraction s = (fs, rest)) :
    s = Number.fractionText fs ++ rest ∧ AllDigits fs := by
  unfold fraction at h
  have hnone (h : ([], s) = (fs, rest)) : s = Number.fractionText fs ++ rest ∧ AllDigits fs := by
    obtain ⟨rfl, rfl⟩ := Prod.mk.inj h
    exact ⟨rfl, List.forall_mem_nil _⟩
  split at h
  · split at h
    · exact hnone h
    · rename_i hsome htake
      obtain ⟨rfl, rfl⟩ := Prod.mk.inj h
      obtain ⟨rfl, hdigits⟩ := takeDigits_spec htake
      refine ⟨?_, hdigits⟩
      rw [Number.fractionText, if_neg fun h => hsome (by rw [h])]
      rfl
  · exact hnone h

/-- A digit is no sign. -/
theorem ne_sign_of_digit {c : CodePoint} (h : c.digit?.isSome = true) :
    c ≠ CodePoint.scalar '-' ∧ c ≠ CodePoint.scalar '+' := by
  constructor
  · rintro rfl
    exact absurd h (by decide)
  · rintro rfl
    exact absurd h (by decide)

theorem exponent?_append (e : Exponent) (hrest : NoDigit rest) :
    exponent? (e.text ++ rest) = (some e.value, rest) := by
  obtain ⟨letter, sign, ds, hletter, hsign, hsome, hdigits⟩ := e
  obtain ⟨d, ds, rfl⟩ := List.exists_cons_of_ne_nil hsome
  have htake : takeDigits (d :: (ds ++ rest)) = (d :: ds, rest) := takeDigits_append hdigits hrest
  obtain ⟨hminus, hplus⟩ := ne_sign_of_digit (hdigits d (List.mem_cons_self ..))
  rcases hletter with rfl | rfl <;> rcases hsign with rfl | rfl | rfl
  · simp [Exponent.text, exponent?, htake, Exponent.value, hminus, hplus]
  · simp [Exponent.text, exponent?, htake, Exponent.value]
  · simp [Exponent.text, exponent?, htake, Exponent.value]
  · simp [Exponent.text, exponent?, htake, Exponent.value, hminus, hplus]
  · simp [Exponent.text, exponent?, htake, Exponent.value]
  · simp [Exponent.text, exponent?, htake, Exponent.value]

/-- What stands behind the letter of an exponent and its sign are digits, or it is no exponent. -/
theorem exists_of_exponentDigits {negative : Bool} {letter : CodePoint} {sign t : Text}
    {n : Option Int} (hletter : letter = CodePoint.scalar 'e' ∨ letter = CodePoint.scalar 'E')
    (hsign : sign = [] ∨ sign = [CodePoint.scalar '+'] ∨ sign = [CodePoint.scalar '-'])
    (hnegative : negative = decide (sign = [CodePoint.scalar '-'])) (hs : s = letter :: (sign ++ t))
    (h : (match takeDigits t with
      | ([], _) => (none, s)
      | (ds, rest) =>
        let n : Int := Text.digitsValue ds
        (some (if negative then -n else n), rest)) = (n, rest)) :
    ∃ e : Option Exponent, s = Number.exponentText e ++ rest ∧ e.map Exponent.value = n := by
  split at h
  · obtain ⟨rfl, rfl⟩ := Prod.mk.inj h
    exact ⟨none, rfl, rfl⟩
  · rename_i ds rest' hsome htake
    obtain ⟨rfl, rfl⟩ := Prod.mk.inj h
    obtain ⟨rfl, hdigits⟩ := takeDigits_spec htake
    refine ⟨some ⟨letter, sign, ds, hletter, hsign, fun h => hsome (by rw [h]), hdigits⟩, ?_, ?_⟩
    · simp [hs, Number.exponentText, Exponent.text]
    · simp [Exponent.value, hnegative]

theorem exists_of_exponent? {n : Option Int} (h : exponent? s = (n, rest)) :
    ∃ e : Option Exponent, s = Number.exponentText e ++ rest ∧ e.map Exponent.value = n := by
  unfold exponent? at h
  dsimp only at h
  split at h
  · exact exists_of_exponentDigits (.inl rfl) (.inr (.inr rfl)) rfl rfl h
  · exact exists_of_exponentDigits (.inr rfl) (.inr (.inr rfl)) rfl rfl h
  · exact exists_of_exponentDigits (.inl rfl) (.inr (.inl rfl)) rfl rfl h
  · exact exists_of_exponentDigits (.inr rfl) (.inr (.inl rfl)) rfl rfl h
  · exact exists_of_exponentDigits (.inl rfl) (.inl rfl) rfl rfl h
  · exact exists_of_exponentDigits (.inr rfl) (.inl rfl) rfl rfl h
  · obtain ⟨rfl, rfl⟩ := Prod.mk.inj h
    exact ⟨none, rfl, rfl⟩

theorem exponent?_of_delimits (h : Delimits s) : exponent? s = (none, s) := by
  unfold exponent?
  dsimp only
  split
  case h_7 => rfl
  all_goals
    first
      | exact absurd rfl (h _ rfl).2.2.1
      | exact absurd rfl (h _ rfl).2.2.2

theorem exponentText_append (e : Option Exponent) (hrest : Delimits rest) :
    exponent? (Number.exponentText e ++ rest) = (e.map Exponent.value, rest) := by
  cases e with
  | none => exact exponent?_of_delimits hrest
  | some e => exact exponent?_append e hrest.noDigit

/-! ## Numbers -/

namespace Number

variable {x : Number}

/-- What follows the digits of a fraction is neither a digit nor a point. -/
theorem head_exponentText (e : Option Exponent) (hrest : Delimits rest) :
    ∀ c ∈ (exponentText e ++ rest).head?,
      c.digit?.isSome = false ∧ c ≠ CodePoint.scalar '.' := by
  intro c hc
  cases e with
  | none => exact ⟨(hrest c hc).1, (hrest c hc).2.1⟩
  | some e =>
    obtain rfl : e.letter = c := Option.some.inj hc
    rcases e.isLetter with h | h
    · rw [h]
      decide
    · rw [h]
      decide

/-- What follows the digits before the point is no digit. -/
theorem noDigit_fractionText (fs : Text) (e : Option Exponent) (hrest : Delimits rest) :
    NoDigit (fractionText fs ++ (exponentText e ++ rest)) := by
  intro c hc
  unfold fractionText at hc
  split at hc
  · exact (head_exponentText e hrest c hc).1
  · obtain rfl : CodePoint.scalar '.' = c := Option.some.inj hc
    decide

/-- The digits before the point start with a digit. -/
theorem exists_whole (h : IsWhole ds) : ∃ d ds', ds = d :: ds' ∧ d.digit?.isSome = true := by
  rcases h with rfl | ⟨hsome, hdigits, -⟩
  · exact ⟨_, [], rfl, by decide⟩
  · obtain ⟨d, ds', rfl⟩ := List.exists_cons_of_ne_nil hsome
    exact ⟨d, ds', rfl, hdigits d (List.mem_cons_self ..)⟩

/-- **A number is read as it is written**, if what follows does not continue it. -/
theorem numeral?_append (x : Number) (hrest : Delimits rest) :
    numeral? (x.text ++ rest) = some (x.numeral, rest) := by
  obtain ⟨negative, ds, fs, e, hds, hfs⟩ := x
  have hwhole := whole?_append hds (noDigit_fractionText fs e hrest)
  have hfraction := fraction_append hfs (fun c hc => (head_exponentText e hrest c hc).1)
    fun c hc => (head_exponentText e hrest c hc).2
  have hexponent := exponentText_append e hrest
  have htext (sign : Text) : (sign ++ (ds ++ (fractionText fs ++ exponentText e))) ++ rest =
      sign ++ (ds ++ (fractionText fs ++ (exponentText e ++ rest))) := by
    simp only [List.append_assoc]
  unfold numeral?
  split
  rename_i negative' unsigned hsign
  obtain ⟨rfl, rfl⟩ : negative = negative' ∧
      ds ++ (fractionText fs ++ (exponentText e ++ rest)) = unsigned := by
    rw [text, htext] at hsign
    cases negative with
    | true => exact Prod.mk.inj hsign
    | false =>
      obtain ⟨d, ds', rfl, hd⟩ := exists_whole hds
      split at hsign
      · rename_i heq
        exact absurd (List.cons.inj heq).1 (ne_sign_of_digit hd).1
      · exact Prod.mk.inj hsign
  simp only [hwhole, hfraction, hexponent]
  rfl

/-- **What is read as a number is one.** -/
theorem exists_of_numeral? {n : Numeral} (h : numeral? s = some (n, rest)) :
    ∃ x : Number, s = x.text ++ rest ∧ x.numeral = n := by
  unfold numeral? at h
  split at h
  rename_i negative unsigned hsign
  have hs : s = signText negative ++ unsigned := by
    split at hsign
    · obtain ⟨rfl, rfl⟩ := Prod.mk.inj hsign
      rfl
    · obtain ⟨rfl, rfl⟩ := Prod.mk.inj hsign
      rfl
  split at h
  · cases h
  · rename_i ds behind hwhole
    obtain ⟨rfl, hds⟩ := exists_of_whole? hwhole
    cases hfraction : Json.fraction behind with
    | mk fs behind' =>
      obtain ⟨rfl, hfs⟩ := fraction_spec hfraction
      rw [hfraction] at h
      cases hexponent : exponent? behind' with
      | mk n behind =>
        obtain ⟨e, rfl, rfl⟩ := exists_of_exponent? hexponent
        dsimp only at h
        rw [hexponent] at h
        obtain ⟨rfl, rfl⟩ := Prod.mk.inj (Option.some.inj h)
        refine ⟨⟨negative, ds, fs, e, hds, hfs⟩, ?_, rfl⟩
        rw [hs]
        simp only [text, List.append_assoc]

/-- An integer of too many digits has no value to a reader; every other number has its own. -/
theorem value_numeral (x : Number) : x.numeral.value =
    if maxDigits < x.digits then .error (.digits x.digits) else .ok x.value := by
  have hinteger : x.numeral.fraction = [] ∧ x.numeral.exponent = none ↔ x.isInteger = true := by
    simp [numeral, isInteger]
  unfold Numeral.value digits value
  cases h : x.isInteger with
  | true =>
    rw [if_pos (hinteger.2 h), if_pos rfl]
    rfl
  | false =>
    rw [if_neg fun hparts => by simp [hinteger.1 hparts] at h]
    rfl

/-- A number starts with a digit, or with a minus and a digit. -/
theorem text_cases (x : Number) : ∃ c t, x.text = c :: t ∧
    (c.digit?.isSome = true ∨
      c = CodePoint.scalar '-' ∧ ∃ d t', t = d :: t' ∧ d.digit?.isSome = true) := by
  obtain ⟨d, ds, hds, hd⟩ := exists_whole x.isWhole
  unfold text signText
  rw [hds]
  cases x.negative with
  | true => exact ⟨_, _, rfl, .inr ⟨rfl, d, _, rfl, hd⟩⟩
  | false => exact ⟨d, _, rfl, .inl hd⟩

end Number

/-! ## Words -/

/-- No word starts as a number does. -/
theorem word_cases : ∀ w ∈ words, ∃ c t, w.1 = c :: t ∧ c.digit?.isSome = false ∧
    (c = CodePoint.scalar '-' → ∃ d t', t = d :: t' ∧ d.digit?.isSome = false) := by
  simp only [words, List.forall_mem_cons]
  refine ⟨⟨_, _, rfl, ?_⟩, ⟨_, _, rfl, ?_⟩, ⟨_, _, rfl, ?_⟩, ⟨_, _, rfl, ?_⟩, ⟨_, _, rfl, ?_⟩,
    ⟨_, _, rfl, by decide, fun _ => ⟨_, _, rfl, by decide⟩⟩, List.forall_mem_nil _⟩
  all_goals exact ⟨by decide, fun h => absurd h (by decide)⟩

theorem find?_words_number (x : Number) (rest : Text) :
    (words.find? fun w => w.1.isPrefixOf (x.text ++ rest)) = none := by
  refine List.find?_eq_none.2 fun w hw hprefix => ?_
  obtain ⟨c, t, hword, hc, hminus⟩ := word_cases w hw
  obtain ⟨c', t', hnumber, hc'⟩ := x.text_cases
  rw [hword, hnumber] at hprefix
  obtain ⟨rfl, ht⟩ := List.cons_prefix_cons.1 (List.isPrefixOf_iff_prefix.1 hprefix)
  rcases hc' with hc' | ⟨rfl, d, t', rfl, hd⟩
  · cases hc.symm.trans hc'
  · obtain ⟨d', t, rfl, hd'⟩ := hminus rfl
    obtain ⟨rfl, -⟩ := List.cons_prefix_cons.1 ht
    cases hd'.symm.trans hd

/-! ## Atoms -/

theorem find?_words_word {w : Text} {v : Value} (h : (w, v) ∈ words) (rest : Text) :
    (words.find? fun u => u.1.isPrefixOf (w ++ rest)) = some (w, v) := by
  simp only [words, List.mem_cons, Prod.mk.injEq, List.not_mem_nil, or_false] at h
  rcases h with ⟨rfl, rfl⟩ | ⟨rfl, rfl⟩ | ⟨rfl, rfl⟩ | ⟨rfl, rfl⟩ | ⟨rfl, rfl⟩ | ⟨rfl, rfl⟩
  all_goals simp [words, Text.ofString]

/-- **A word is read as its value.** -/
theorem gives_atom_word {w : Text} {v : Value} (h : (w, v) ∈ words) (rest : Text) :
    Gives (atom (w ++ rest)) v rest := by
  obtain ⟨c, t, rfl, -⟩ := word_cases _ h
  have hdrop : (c :: t ++ rest).drop (c :: t).length = rest := List.drop_left
  have hlength : rest.length < (c :: t ++ rest).length := by
    rw [List.length_append, List.length_cons]
    omega
  refine ⟨hlength, ?_⟩
  unfold atom
  simp only [find?_words_word h, hdrop, dif_pos hlength]

/-- **A number is read as its value**, if it has no more digits than an integer may have. -/
theorem gives_atom_number (x : Number) (hdigits : x.digits ≤ maxDigits) (hrest : Delimits rest) :
    Gives (atom (x.text ++ rest)) x.value rest := by
  have hlength : rest.length < (x.text ++ rest).length := by
    obtain ⟨c, t, htext, -⟩ := x.text_cases
    rw [htext, List.length_append, List.length_cons]
    omega
  refine ⟨hlength, ?_⟩
  unfold atom
  simp only [find?_words_number, x.numeral?_append hrest, x.value_numeral,
    if_neg (Nat.not_lt.2 hdigits), dif_pos hlength]

/-- An integer of too many digits is refused. -/
theorem atom_of_long (x : Number) (hdigits : maxDigits < x.digits) (hrest : Delimits rest) :
    atom (x.text ++ rest) = .error (.digits x.digits) := by
  unfold atom
  simp only [find?_words_number, x.numeral?_append hrest, x.value_numeral, if_pos hdigits]

/-- **What is read as an atom is a word or a number.** -/
theorem atom_cases {v : Value} {hlt} (h : atom s = .ok ⟨v, rest, hlt⟩) :
    (∃ w, (w, v) ∈ words ∧ s = w ++ rest) ∨
      ∃ x : Number, s = x.text ++ rest ∧ x.value = v ∧ x.digits ≤ maxDigits := by
  unfold atom at h
  split at h
  · rename_i w v' hfind
    split at h
    · cases h
      have hprefix := List.find?_some hfind
      obtain ⟨rest, rfl⟩ := List.isPrefixOf_iff_prefix.1 hprefix
      exact .inl ⟨w, List.mem_of_find?_eq_some hfind, by rw [List.drop_left]⟩
    · cases h
  · split at h
    · cases h
    · rename_i n rest' hnumeral
      obtain ⟨x, rfl, rfl⟩ := Number.exists_of_numeral? hnumeral
      rw [x.value_numeral] at h
      split at h
      · cases h
      · rename_i hvalue
        split at h
        · cases h
          split at hvalue
          · cases hvalue
          · rename_i hdigits
            exact .inr ⟨x, rfl, Except.ok.inj hvalue, Nat.le_of_not_lt hdigits⟩
        · cases h

end Json
end PartialBatch
