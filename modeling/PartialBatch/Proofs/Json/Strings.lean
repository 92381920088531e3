/-
# Strings as they are written

A string is read piece by piece.  Pieces between quotes are read as the text that they stand for
(`Piece.gives_closed`), and what is read as a string are pieces up to the closing quote
(`Piece.exists_of_stringBody`).

| in front | read as |
| --- | --- |
| a code point that is neither a quote nor a backslash nor a control | itself |
| a backslash and a letter | what the letter stands for |
| `\u` and four digits, no high surrogate | the code point of the number |
| the same for a high surrogate, an escape of a low one behind it | the character that both spell |
| the same, anything else behind it | the surrogate alone |

Only the last two rows look beyond the piece in front.  The recursion of `Piece.textOf` takes two
pieces in one case for that, and so does the induction here.
-/

import PartialBatch.Proofs.Json.Syntax
import Mathlib.Data.List.TakeWhile

namespace PartialBatch
namespace Json

/-! ## White space -/

theorem skip_blank (b : Blank) {c : CodePoint} (hc : isSpace c = false) (rest : Text) :
    skip (b.text ++ c :: rest) = c :: rest := by
  unfold skip
  rw [List.dropWhile_append_of_pos b.isBlank, List.dropWhile_cons_of_neg (by simp [hc])]

theorem exists_blank (s : Text) : ∃ b : Blank, s = b.text ++ skip s :=
  ⟨⟨s.takeWhile isSpace, fun _ hc => List.mem_takeWhile_imp hc⟩,
    (List.takeWhile_append_dropWhile).symm⟩

/-! ## Strings -/

theorem exists_hex4? {a b c d : CodePoint} {n : Nat} {s : Text} (h : hexNumber? a b c d = some n)
    (hs : s ≠ []) : ∃ hlt, hex4? (a :: b :: c :: d :: s) = some ⟨n, s, hlt⟩ := by
  unfold hexNumber? at h
  split at h
  · rename_i ha hb hc hd
    obtain rfl := Option.some.inj h
    obtain ⟨e, rest, rfl⟩ := List.exists_cons_of_ne_nil hs
    simp [hex4?, ha, hb, hc, hd]
  · cases h

theorem exists_of_hex4? {s rest : Text} {n : Nat} {hlt} (h : hex4? s = some ⟨n, rest, hlt⟩) :
    ∃ a b c d, hexNumber? a b c d = some n ∧ s = a :: b :: c :: d :: rest := by
  unfold hex4? at h
  split at h
  · split at h
    · rename_i ha hb hc hd
      cases h
      exact ⟨_, _, _, _, by simp only [hexNumber?, ha, hb, hc, hd], rfl⟩
    · cases h
  · cases h

variable {start s s' t r : Text} {c : CodePoint}

theorem gives_stringBody_quote : Gives (stringBody start (CodePoint.scalar '"' :: r)) [] r := by
  unfold stringBody
  exact ⟨_, rfl⟩

theorem gives_stringBody_plain (hc : IsPlain c) (h : Gives (stringBody start s) t r) :
    Gives (stringBody start (c :: s)) (c :: t) r := by
  obtain ⟨hnumber, hquote, hback⟩ := hc
  obtain ⟨hlt, hs⟩ := h
  generalize hall : c :: s = all
  unfold stringBody
  split
  · cases hall
  · exact absurd (List.cons.inj hall).1 hquote
  · exact absurd (List.cons.inj hall).1 hback
  · obtain ⟨rfl, rfl⟩ := List.cons.inj hall
    rw [if_neg (by omega), hs]
    exact ⟨_, rfl⟩

theorem gives_stringBody_escape (hescape : Gives (escape start s) c s')
    (h : Gives (stringBody start s') t r) :
    Gives (stringBody start (CodePoint.scalar '\\' :: s)) (c :: t) r := by
  obtain ⟨hlt, hescape⟩ := hescape
  obtain ⟨hlt', h⟩ := h
  unfold stringBody
  simp only [hescape, h]
  exact ⟨_, rfl⟩

theorem gives_escape_short {letter : CodePoint} (h : shortEscape? letter = some c) :
    Gives (escape start (letter :: s)) c s := by
  generalize hall : letter :: s = all
  unfold escape
  split
  · cases hall
  · obtain ⟨rfl, rfl⟩ := List.cons.inj hall
    have hnone : shortEscape? (CodePoint.scalar 'u') = none := by decide
    cases hnone.symm.trans h
  · obtain ⟨rfl, rfl⟩ := List.cons.inj hall
    rw [h]
    exact ⟨_, rfl⟩

variable {a b d high : CodePoint} {n : Nat}

theorem gives_escape_unicode (h : hexNumber? a b c d = some n) (hs : s ≠ [])
    (hhigh : (CodePoint.ofNumber n).isHighSurrogate = false) :
    Gives (escape start (CodePoint.scalar 'u' :: a :: b :: c :: d :: s))
      (CodePoint.ofNumber n) s := by
  obtain ⟨hlt, hhex⟩ := exists_hex4? h hs
  unfold escape
  simp only [hhex, hhigh]
  exact ⟨_, rfl⟩

theorem gives_escape_high {hle} (h : hexNumber? a b c d = some n) (hs : s ≠ [])
    (hhigh : (CodePoint.ofNumber n).isHighSurrogate = true)
    (hpair : pair (CodePoint.ofNumber n) s = .ok (high, ⟨s', hle⟩)) :
    Gives (escape start (CodePoint.scalar 'u' :: a :: b :: c :: d :: s)) high s' := by
  obtain ⟨hlt, hhex⟩ := exists_hex4? h hs
  unfold escape
  simp only [hhex, hhigh, hpair]
  exact ⟨_, rfl⟩

theorem pair_low (high : CodePoint) (h : hexNumber? a b c d = some n) (hs : s ≠ [])
    (hlow : (CodePoint.ofNumber n).isLowSurrogate = true) :
    ∃ hle, pair high (CodePoint.scalar '\\' :: CodePoint.scalar 'u' :: a :: b :: c :: d :: s) =
      .ok (high.joined (CodePoint.ofNumber n), ⟨s, hle⟩) := by
  obtain ⟨hlt, hhex⟩ := exists_hex4? h hs
  refine ⟨by simp only [List.length_cons]; omega, ?_⟩
  simp [pair, hhex, hlow]

namespace Piece

theorem closed_cons (p : Piece) (ps : List Piece) (r : Text) :
    closed (p :: ps) ++ r = p.text ++ (closed ps ++ r) := by
  simp [closed]

/-- Behind a piece something stands, if it is only the closing quote. -/
theorem closed_ne_nil (ps : List Piece) (r : Text) : closed ps ++ r ≠ [] := by
  simp [closed]

/-- Whether a piece is written as the second half of a pair. -/
def isLow : Piece → Bool
  | unicode _ _ _ _ n _ => (CodePoint.ofNumber n).isLowSurrogate
  | _ => false

/-- A surrogate stands alone unless the escape of a low one follows. -/
theorem pair_alone (high : CodePoint) (ps : List Piece) (r : Text)
    (hlow : ∀ q ∈ ps.head?, q.isLow = false) :
    ∃ hle, pair high (closed ps ++ r) = .ok (high, ⟨closed ps ++ r, hle⟩) := by
  refine ⟨Nat.le_refl _, ?_⟩
  generalize hall : closed ps ++ r = all
  unfold pair
  split
  · rename_i more
    cases ps with
    | nil => cases hall
    | cons q ps =>
      rw [closed_cons] at hall
      cases q with
      | plain c hc => exact absurd (List.cons.inj hall).1 hc.2.2
      | short letter c hshort =>
        obtain ⟨-, hall⟩ := List.cons.inj hall
        obtain ⟨rfl, -⟩ := List.cons.inj hall
        have hnone : shortEscape? (CodePoint.scalar 'u') = none := by decide
        cases hnone.symm.trans hshort
      | unicode a b c d n hn =>
        obtain ⟨-, hall⟩ := List.cons.inj hall
        obtain ⟨-, rfl⟩ := List.cons.inj hall
        obtain ⟨hlt, hhex⟩ := exists_hex4? hn (closed_ne_nil ps r)
        have hlow : (CodePoint.ofNumber n).isLowSurrogate = false := hlow _ rfl
        simp [hhex, hlow]
  · rfl

/-- A piece that makes no pair with the next stands for its own code point. -/
theorem gives_alone {p : Piece} {ps : List Piece} (hpair : ∀ q ∈ ps.head?, p.isPair q = false)
    (h : Gives (stringBody start (closed ps ++ r)) t s) :
    Gives (stringBody start (closed (p :: ps) ++ r)) (p.point :: t) s := by
  rw [closed_cons]
  cases p with
  | plain c hc => exact gives_stringBody_plain hc h
  | short letter c hshort => exact gives_stringBody_escape (gives_escape_short hshort) h
  | unicode a b c d n hn =>
    refine gives_stringBody_escape ?_ h
    cases hhigh : (CodePoint.ofNumber n).isHighSurrogate with
    | false => exact gives_escape_unicode hn (closed_ne_nil ps r) hhigh
    | true =>
      have hlow : ∀ q ∈ ps.head?, q.isLow = false := by
        intro q hq
        have hnot := hpair q hq
        cases q with
        | unicode _ _ _ _ k _ => simpa [isPair, isLow, hhigh] using hnot
        | plain | short => rfl
      obtain ⟨hle, halone⟩ := pair_alone (CodePoint.ofNumber n) ps r hlow
      exact gives_escape_high hn (closed_ne_nil ps r) hhigh halone

/-- Two pieces that make a pair stand for one code point. -/
theorem gives_pair {p q : Piece} {ps : List Piece} (hpair : p.isPair q = true)
    (h : Gives (stringBody start (closed ps ++ r)) t s) :
    Gives (stringBody start (closed (p :: q :: ps) ++ r)) (p.point.joined q.point :: t) s := by
  rw [closed_cons, closed_cons]
  cases p with
  | plain | short => cases q <;> cases hpair
  | unicode a b c d n hn =>
    cases q with
    | plain | short => cases hpair
    | unicode a' b' c' d' k hk =>
      obtain ⟨hhigh, hlow⟩ := (Bool.and_eq_true ..).mp hpair
      obtain ⟨hle, hjoined⟩ := pair_low _ hk (closed_ne_nil ps r) hlow
      exact gives_stringBody_escape (gives_escape_high hn (by simp [text]) hhigh hjoined) h

/-- **Pieces between quotes are read as the text that they stand for.** -/
theorem gives_closed (start : Text) (ps : List Piece) (r : Text) :
    Gives (stringBody start (closed ps ++ r)) (textOf ps) r := by
  induction ps using textOf.induct with
  | case1 => exact gives_stringBody_quote
  | case2 p => exact gives_alone (by simp) gives_stringBody_quote
  | case3 p q ps hpair ih =>
    rw [textOf, if_pos hpair]
    exact gives_pair hpair ih
  | case4 p q ps hpair ih =>
    rw [textOf, if_neg hpair]
    exact gives_alone (by simpa using hpair) ih

theorem textOf_alone {p : Piece} {ps : List Piece} (h : ∀ q ∈ ps.head?, p.isPair q = false) :
    textOf (p :: ps) = p.point :: textOf ps := by
  cases ps with
  | nil => rfl
  | cons q ps => rw [textOf, if_neg (by simp [h q rfl])]

/-- If a surrogate was taken alone, no escape of a low one follows. -/
theorem isLow_eq_false {ps : List Piece} {hle} (h : pair high s = .ok (c, ⟨s, hle⟩))
    (hs : s = closed ps ++ r) : ∀ q ∈ ps.head?, q.isLow = false := by
  intro q hq
  cases hlow : q.isLow with
  | false => rfl
  | true =>
    obtain ⟨ps, rfl⟩ := List.head?_eq_some_iff.1 hq
    cases q with
    | plain | short => cases hlow
    | unicode a b c d n hn =>
      -- a pair leaves less than it was given
      obtain ⟨hle', hjoined⟩ := pair_low high hn (closed_ne_nil ps r) hlow
      rw [closed_cons] at hs
      subst hs
      obtain ⟨-, hrest⟩ := Prod.mk.inj (Except.ok.inj (hjoined.symm.trans h))
      have hlength := congrArg (fun r => r.1.length) hrest
      simp only [text, List.length_append, List.length_cons] at hlength
      omega

theorem pair_cases {high : CodePoint} {r : { r : Text // r.length ≤ s.length }}
    (h : pair high s = .ok (c, r)) :
    c = high ∧ r.1 = s ∨ ∃ q : Piece, s = q.text ++ r.1 ∧ q.isLow = true ∧
      c = high.joined q.point := by
  unfold pair at h
  split at h
  · split at h
    · cases h
    · rename_i hhex
      split at h
      · rename_i hlow
        obtain ⟨rfl, rfl⟩ := Prod.mk.inj (Except.ok.inj h)
        obtain ⟨a, b, c, d, hn, rfl⟩ := exists_of_hex4? hhex
        exact .inr ⟨.unicode a b c d _ hn, rfl, hlow, rfl⟩
      · obtain ⟨rfl, rfl⟩ := Prod.mk.inj (Except.ok.inj h)
        exact .inl ⟨rfl, rfl⟩
  · obtain ⟨rfl, rfl⟩ := Prod.mk.inj (Except.ok.inj h)
    exact .inl ⟨rfl, rfl⟩

/-- What is read behind a backslash is one piece, or two that make a pair. -/
theorem escape_cases {hlt} (h : escape start s = .ok ⟨c, r, hlt⟩) :
    (∃ p : Piece, CodePoint.scalar '\\' :: s = p.text ++ r ∧ c = p.point ∧
      ∀ ps r', r = closed ps ++ r' → ∀ q ∈ ps.head?, p.isPair q = false) ∨
    ∃ p q : Piece, CodePoint.scalar '\\' :: s = p.text ++ (q.text ++ r) ∧
      p.isPair q = true ∧ c = p.point.joined q.point := by
  unfold escape at h
  split at h
  · cases h
  · split at h
    · cases h
    · rename_i n rest _ hhex
      obtain ⟨a, b, c', d, hn, rfl⟩ := exists_of_hex4? hhex
      split at h
      · rename_i hhigh
        split at h
        · cases h
        · rename_i hpair
          cases h
          obtain ⟨hc, hrest⟩ | ⟨q, hq, hlow, hc⟩ := pair_cases hpair
          · subst hc
            obtain rfl : r = rest := hrest
            refine .inl ⟨.unicode a b c' d n hn, rfl, rfl, fun ps r' hr q hq => ?_⟩
            have hlow := isLow_eq_false hpair hr q hq
            cases q with
            | plain | short => rfl
            | unicode => simpa [isPair, isLow, hhigh] using hlow
          · cases q with
            | plain | short => cases hlow
            | unicode =>
              refine .inr ⟨.unicode a b c' d n hn, _, ?_, ?_, hc⟩
              · rw [← hq]
                rfl
              · simpa [isPair, isLow, hhigh] using hlow
      · rename_i hhigh
        cases h
        refine .inl ⟨.unicode a b c' d n hn, rfl, rfl, fun ps r' _ q _ => ?_⟩
        cases q <;> simp [isPair, hhigh]
  · split at h
    · rename_i hshort
      cases h
      refine .inl ⟨.short _ _ hshort, rfl, rfl, fun ps r' _ q _ => ?_⟩
      cases q <;> rfl
    · cases h

/-- **What is read as a string are pieces up to the closing quote.** -/
theorem exists_of_stringBody {s t r : Text} {hlt} (h : stringBody start s = .ok ⟨t, r, hlt⟩) :
    ∃ ps, s = closed ps ++ r ∧ textOf ps = t := by
  unfold stringBody at h
  split at h
  · cases h
  · cases h
    exact ⟨[], rfl, rfl⟩
  · split at h
    · cases h
    · rename_i rest _ c rest' hlt' hescape
      split at h
      · cases h
      · rename_i hbody
        cases h
        obtain ⟨ps, rfl, rfl⟩ := exists_of_stringBody hbody
        obtain ⟨p, hp, hc, halone⟩ | ⟨p, q, hpq, hpair, hc⟩ := escape_cases hescape
        · exact ⟨p :: ps, by rw [closed_cons, hp], by rw [textOf_alone (halone ps r rfl), hc]⟩
        · refine ⟨p :: q :: ps, by rw [closed_cons, closed_cons, hpq], ?_⟩
          rw [textOf, if_pos hpair, hc]
  · rename_i c rest hquote hback
    split at h
    · cases h
    · rename_i hnumber
      split at h
      · cases h
      · rename_i hbody
        cases h
        obtain ⟨ps, rfl, rfl⟩ := exists_of_stringBody hbody
        have hplain : IsPlain c :=
          ⟨Nat.le_of_not_lt hnumber, fun h => hquote (by rw [h]), fun h => hback (by rw [h])⟩
        refine ⟨.plain c hplain :: ps, rfl, textOf_alone fun q _ => ?_⟩
        cases q <;> rfl
termination_by s.length
decreasing_by
  all_goals
    subst_vars
    simp only [List.length_cons]
    omega

end Piece

end Json
end PartialBatch
