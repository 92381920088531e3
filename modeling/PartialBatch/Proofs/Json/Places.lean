/-
# Where reading stops

A reader goes through its text from the left. What it leaves is an end of the text, so whatever it
comes upon later stands in the text as well. In particular no body is refused for the digits of an
integer that it does not hold: where the refusal names a count of digits, an integer of so many starts
at some place (`exists_long_of_digits`).

| reader | its calls to others |
| --- | --- |
| `value` | a string, an atom, or the elements or members behind a bracket |
| `elements` | a value, and behind a comma the others |
| `members` | a string, behind a colon a value, and behind a comma the others |

One statement is proved about each (`Traced`), along its own recursion.
-/

import PartialBatch.Json.Reader
import Mathlib.Data.List.TakeDrop

namespace PartialBatch
namespace Json

/-- Whether a text starts with an integer of `count` digits, more than an integer may have. -/
def StartsLong (s : Text) (count : Nat) : Prop :=
  maxDigits < count ∧ ∃ x rest, numeral? s = some (x, rest) ∧ x.fraction = [] ∧
    x.exponent = none ∧ x.whole.length = count

/-- Whether what a reader leaves is an end of its text, and an integer that it stops at stands in
the text. -/
def Traced {α : Type} {s : Text} : Except Halt (Step α s) → Prop
  | .ok step => step.rest <:+ s
  | .error (.digits count) => ∃ t, t <:+ s ∧ StartsLong t count
  | .error _ => True

variable {α β : Type} {s t : Text}

namespace Traced

variable {r : Except Halt (Step α s)}

theorem suffix {step : Step α s} (h : Traced r) (hr : r = .ok step) : step.rest <:+ s := by
  rwa [hr] at h

/-- What a reader stops at, a reader of a longer text stops at. -/
theorem of_error {e : Halt} (h : Traced r) (hr : r = .error e) (hs : s <:+ t) :
    Traced (.error e : Except Halt (Step β t)) := by
  rw [hr] at h
  cases e with
  | digits count =>
    obtain ⟨u, hu, hlong⟩ := h
    exact ⟨u, hu.trans hs, hlong⟩
  | trouble | depth => trivial

end Traced

/-! ## White space and strings -/

theorem skip_suffix (s : Text) : skip s <:+ s := List.dropWhile_suffix _

theorem suffix_of_skip {c : CodePoint} (h : skip s = c :: t) : t <:+ s :=
  (List.suffix_cons c t).trans (h ▸ skip_suffix s)

theorem length_skip_lt {c : CodePoint} (h : skip s = c :: t) : (skip t).length < s.length := by
  have hlength := length_skip_le s
  rw [h] at hlength
  exact Nat.lt_of_le_of_lt (length_skip_le t) hlength

theorem suffix_of_hex4? {step : Step Nat s} (h : hex4? s = some step) : step.rest <:+ s := by
  unfold hex4? at h
  split at h
  · split at h
    · obtain rfl := Option.some.inj h
      exact ⟨[_, _, _, _], rfl⟩
    · cases h
  · cases h

theorem suffix_of_pair {high c : CodePoint} {r : { r : Text // r.length ≤ s.length }}
    (h : pair high s = .ok (c, r)) : r.1 <:+ s := by
  unfold pair at h
  split at h
  · split at h
    · cases h
    · rename_i hhex
      split at h
      · obtain ⟨-, rfl⟩ := Prod.mk.inj (Except.ok.inj h)
        exact (suffix_of_hex4? hhex).trans ⟨[_, _], rfl⟩
      · obtain ⟨-, rfl⟩ := Prod.mk.inj (Except.ok.inj h)
        exact List.suffix_refl _
  · obtain ⟨-, rfl⟩ := Prod.mk.inj (Except.ok.inj h)
    exact List.suffix_refl _

theorem exists_trouble_of_pair {high : CodePoint} {e : Halt} (h : pair high s = .error e) :
    ∃ what rest, e = .trouble what rest := by
  unfold pair at h
  split at h
  · split at h
    · exact ⟨_, _, (Except.error.inj h).symm⟩
    · split at h <;> cases h
  · cases h

theorem traced_escape (start s : Text) : Traced (escape start s) := by
  unfold escape
  split
  · trivial
  · rename_i more
    split
    · trivial
    · rename_i hhex
      have hrest := (suffix_of_hex4? hhex).trans (List.suffix_cons (CodePoint.scalar 'u') more)
      split
      · split
        · rename_i he
          obtain ⟨what, rest, rfl⟩ := exists_trouble_of_pair he
          trivial
        · rename_i hpair
          exact (suffix_of_pair hpair).trans hrest
      · exact hrest
  · split
    · exact List.suffix_cons ..
    · trivial

theorem traced_stringBody (start s : Text) : Traced (stringBody start s) := by
  unfold stringBody
  split
  · trivial
  · exact List.suffix_cons ..
  · rename_i rest
    have hescape := traced_escape start rest
    split
    · rename_i he
      exact hescape.of_error he (List.suffix_cons ..)
    · rename_i c rest' _ he
      have hrest := (hescape.suffix he).trans (List.suffix_cons (CodePoint.scalar '\\') rest)
      have hbody := traced_stringBody start rest'
      split
      · rename_i he
        exact hbody.of_error he hrest
      · rename_i he
        exact (hbody.suffix he).trans hrest
  · rename_i c rest _ _
    split
    · trivial
    · have hbody := traced_stringBody start rest
      split
      · rename_i he
        exact hbody.of_error he (List.suffix_cons ..)
      · rename_i he
        exact (hbody.suffix he).trans (List.suffix_cons ..)
termination_by s.length
decreasing_by
  all_goals
    subst_vars
    simp only [List.length_cons]
    omega

/-! ## Numbers -/

theorem suffix_of_takeDigits {ds rest : Text} (h : takeDigits s = (ds, rest)) : rest <:+ s := by
  rw [takeDigits, List.span_eq_takeWhile_dropWhile] at h
  obtain ⟨-, rfl⟩ := Prod.mk.inj h
  exact List.dropWhile_suffix _

theorem suffix_of_whole? {ds rest : Text} (h : whole? s = some (ds, rest)) : rest <:+ s := by
  unfold whole? at h
  split at h
  · obtain ⟨-, rfl⟩ := Prod.mk.inj (Option.some.inj h)
    exact List.suffix_cons ..
  · split at h
    · cases h
    · rename_i hdigits
      obtain ⟨-, rfl⟩ := Prod.mk.inj (Option.some.inj h)
      exact suffix_of_takeDigits hdigits

theorem fraction_suffix (s : Text) : (fraction s).2 <:+ s := by
  unfold fraction
  split
  · split
    · exact List.suffix_refl _
    · rename_i hdigits
      exact (suffix_of_takeDigits hdigits).trans (List.suffix_cons ..)
  · exact List.suffix_refl _

theorem exponent?_suffix (s : Text) : (exponent? s).2 <:+ s := by
  unfold exponent?
  dsimp only
  split
  case h_7 => exact List.suffix_refl _
  all_goals
    split
    · exact List.suffix_refl _
    · -- the digits stand behind the letter, or behind a sign that follows it
      rename_i hdigits
      first
        | exact (suffix_of_takeDigits hdigits).trans ⟨[_, _], rfl⟩
        | exact (suffix_of_takeDigits hdigits).trans ⟨[_], rfl⟩

theorem suffix_of_numeral? {x : Numeral} {rest : Text} (h : numeral? s = some (x, rest)) :
    rest <:+ s := by
  unfold numeral? at h
  split at h
  rename_i negative unsigned hsign
  have hunsigned : unsigned <:+ s := by
    split at hsign
    · obtain ⟨-, rfl⟩ := Prod.mk.inj hsign
      exact List.suffix_cons ..
    · obtain ⟨-, rfl⟩ := Prod.mk.inj hsign
      exact List.suffix_refl _
  split at h
  · cases h
  · rename_i ds behind hwhole
    obtain ⟨-, rfl⟩ := Prod.mk.inj (Option.some.inj h)
    have hbehind := (exponent?_suffix _).trans (fraction_suffix behind)
    exact hbehind.trans ((suffix_of_whole? hwhole).trans hunsigned)

/-- The only halt in the value of a number is that its integer has too many digits. -/
theorem exists_digits_of_value {x : Numeral} {e : Halt} (h : x.value = .error e) :
    e = .digits x.whole.length ∧ x.fraction = [] ∧ x.exponent = none ∧
      maxDigits < x.whole.length := by
  unfold Numeral.value at h
  split at h
  · rename_i hinteger
    split at h
    · rename_i hlong
      exact ⟨(Except.error.inj h).symm, hinteger.1, hinteger.2, hlong⟩
    · cases h
  · cases h

theorem traced_atom (s : Text) : Traced (atom s) := by
  unfold atom
  split
  · split
    · exact List.drop_suffix ..
    · trivial
  · split
    · trivial
    · rename_i x rest hx
      split
      · rename_i he
        obtain ⟨rfl, hfraction, hexponent, hlong⟩ := exists_digits_of_value he
        exact ⟨s, List.suffix_refl _, hlong, x, rest, hx, hfraction, hexponent, rfl⟩
      · split
        · exact suffix_of_numeral? hx
        · trivial

/-! ## Values -/

mutual

theorem traced_value (room : Nat) (s : Text) : Traced (value room s) := by
  unfold value
  split
  · rename_i rest
    have hbody := traced_stringBody (CodePoint.scalar '"' :: rest) rest
    split
    · rename_i e he
      exact hbody.of_error he (List.suffix_cons ..)
    · rename_i he
      exact (hbody.suffix he).trans (List.suffix_cons ..)
  · rename_i rest
    have hopen : rest <:+ CodePoint.scalar '[' :: rest := List.suffix_cons ..
    split
    · trivial
    · split
      · rename_i hs
        exact (suffix_of_skip hs).trans hopen
      · rename_i hs
        have hskip := (skip_suffix rest).trans hopen
        have hlength := length_skip_le rest
        have helements := traced_elements (room - 1) (skip rest)
        split
        · rename_i he
          exact helements.of_error he hskip
        · rename_i he
          exact (helements.suffix he).trans hskip
  · rename_i rest
    have hopen : rest <:+ CodePoint.scalar '\x7b' :: rest := List.suffix_cons ..
    split
    · trivial
    · split
      · rename_i hs
        exact (suffix_of_skip hs).trans hopen
      · rename_i hs
        have hskip := (skip_suffix rest).trans hopen
        have hlength := length_skip_le rest
        have hmembers := traced_members (room - 1) [] (skip rest)
        split
        · rename_i he
          exact hmembers.of_error he hskip
        · rename_i he
          exact (hmembers.suffix he).trans hskip
  · exact traced_atom _
termination_by 2 * s.length
decreasing_by
  all_goals
    subst_vars
    simp only [List.length_cons]
    omega

theorem traced_elements (room : Nat) (s : Text) : Traced (elements room s) := by
  unfold elements
  have hvalue := traced_value room s
  split
  · rename_i he
    exact hvalue.of_error he (List.suffix_refl _)
  · rename_i v rest h he
    have hrest := hvalue.suffix he
    split
    · rename_i hs
      exact (suffix_of_skip hs).trans hrest
    · rename_i r hs
      have hskip := (skip_suffix r).trans ((suffix_of_skip hs).trans hrest)
      have hlength := length_skip_lt hs
      have helements := traced_elements room (skip r)
      split
      · rename_i he
        exact helements.of_error he hskip
      · rename_i he
        exact (helements.suffix he).trans hskip
    · trivial
termination_by 2 * s.length + 1
decreasing_by all_goals omega

theorem traced_members (room : Nat) (es : Entries) (s : Text) : Traced (members room es s) := by
  unfold members
  split
  · rename_i s₁
    have hbody := traced_stringBody (CodePoint.scalar '"' :: s₁) s₁
    split
    · rename_i he
      exact hbody.of_error he (List.suffix_cons ..)
    · rename_i key s₂ h₂ he
      have hs₂ := (hbody.suffix he).trans (List.suffix_cons (CodePoint.scalar '"') s₁)
      split
      · rename_i s₃ hs₃
        have hskip := (skip_suffix s₃).trans ((suffix_of_skip hs₃).trans hs₂)
        have hlength := length_skip_lt hs₃
        have hvalue := traced_value room (skip s₃)
        split
        · rename_i he
          exact hvalue.of_error he hskip
        · rename_i v s₄ h₄ he
          have hs₄ := (hvalue.suffix he).trans hskip
          split
          · rename_i hs₅
            exact (suffix_of_skip hs₅).trans hs₄
          · rename_i s₅ hs₅
            have hskip := (skip_suffix s₅).trans ((suffix_of_skip hs₅).trans hs₄)
            have hlength' := length_skip_lt hs₅
            have hmembers := traced_members room (es.put key v) (skip s₅)
            split
            · rename_i he
              exact hmembers.of_error he hskip
            · rename_i he
              exact (hmembers.suffix he).trans hskip
          · trivial
      · trivial
  · trivial
termination_by 2 * s.length + 1
decreasing_by
  all_goals
    subst_vars
    simp only [List.length_cons]
    omega

end

/-! ## Texts -/

/-- **A text that is refused for the digits of an integer holds that integer.** -/
theorem exists_long_of_digits {count : Nat} (h : read s = .error (.digits count)) :
    ∃ t, t <:+ s ∧ StartsLong t count := by
  unfold read at h
  dsimp only at h
  split at h
  · cases h
  · have hvalue := traced_value maxDepth (skip s)
    split at h
    · rename_i e he
      cases e with
      | digits n =>
        obtain rfl : n = count := by simpa using h
        exact hvalue.of_error (β := Value) he (skip_suffix s)
      | trouble | depth => cases h
    · split at h <;> cases h

/-- Whether reading a text stays within the limits on digits and depth. -/
def staysWithinLimits (s : Text) : Bool :=
  match read s with
  | .error (.digits _) => false
  | .error (.depth _) => false
  | _ => true

/-- Reading stays within the limits if no integer is too long and no container too deep. -/
theorem staysWithinLimits_of_short (hshort : ∀ t count, t <:+ s → ¬StartsLong t count)
    (hdepth : ∀ container, read s ≠ .error (.depth container)) : staysWithinLimits s = true := by
  unfold staysWithinLimits
  split
  · rename_i hread
    obtain ⟨t, ht, hlong⟩ := exists_long_of_digits hread
    exact absurd hlong (hshort t _ ht)
  · rename_i hread
    exact absurd hread (hdepth _)
  · rfl

end Json
end PartialBatch
