/-
# How deep a text nests

How many containers are open at once in a text can be told without reading it: by a scan that counts
brackets and braces, and passes over strings (`nesting`).  Any text has a nesting, whether or not it
is JSON.

| text | nesting |
| --- | --- |
| of a tree | the depth of the tree (`nesting_text`) |
| whose reading stops because a container is too deep | more than 990 (`lt_nesting_of_depth`) |

So a text whose nesting is within the limit is never refused for its depth.  A scan of a tree ends
where it started (`foldl_doc`); that is what carries the second row past the parts that were read
before the container that is too deep.
-/

import PartialBatch.Proofs.Json.Trees

namespace PartialBatch
namespace Json

/-! ## Scanning -/

/-- Where a scan of a text has come to: outside strings, in a string, or in one behind a
backslash. -/
inductive Place
  | outside
  | inside
  | escaped
  deriving DecidableEq, Repr

/-- A scan of a text: its place, how many containers are open there, and how many were open at once
so far. -/
structure Scan where
  place : Place
  depth : Nat
  deepest : Nat
  deriving DecidableEq, Repr

/-- A scan behind one more code point. -/
def Scan.next (scan : Scan) (c : CodePoint) : Scan :=
  match scan.place with
  | .escaped => { scan with place := .inside }
  | .inside =>
    if c = CodePoint.scalar '"' then { scan with place := .outside }
    else if c = CodePoint.scalar '\\' then { scan with place := .escaped }
    else scan
  | .outside =>
    if c = CodePoint.scalar '"' then { scan with place := .inside }
    else if c = CodePoint.scalar '[' ∨ c = CodePoint.scalar '\x7b' then
      { scan with depth := scan.depth + 1, deepest := max scan.deepest (scan.depth + 1) }
    else if c = CodePoint.scalar ']' ∨ c = CodePoint.scalar '\x7d' then
      { scan with depth := scan.depth - 1 }
    else scan

/-- How many containers are open at once in a text, at most, whether or not it is JSON. -/
def nesting (s : Text) : Nat := (s.foldl Scan.next ⟨.outside, 0, 0⟩).deepest

variable {room n k : Nat} {s r t : Text} {c : CodePoint} {container : Container}

theorem Scan.deepest_le_next (scan : Scan) (c : CodePoint) :
    scan.deepest ≤ (scan.next c).deepest := by
  unfold next
  split
  · exact Nat.le_refl _
  · split
    · exact Nat.le_refl _
    · split <;> exact Nat.le_refl _
  · split
    · exact Nat.le_refl _
    · split
      · exact Nat.le_max_left ..
      · split <;> exact Nat.le_refl _

theorem Scan.deepest_le_foldl (s : Text) (scan : Scan) :
    scan.deepest ≤ (s.foldl Scan.next scan).deepest := by
  induction s generalizing scan with
  | nil => exact Nat.le_refl _
  | cons c s ih => exact Nat.le_trans (scan.deepest_le_next c) (ih _)

/-! ## Tokens -/

/-- Whether a code point is neither a quote nor a bracket nor a brace. -/
structure IsNeutral (c : CodePoint) : Prop where
  ne_quote : c ≠ CodePoint.scalar '"'
  ne_opening : c ≠ CodePoint.scalar '[' ∧ c ≠ CodePoint.scalar '\x7b'
  ne_closing : c ≠ CodePoint.scalar ']' ∧ c ≠ CodePoint.scalar '\x7d'

instance (c : CodePoint) : Decidable (IsNeutral c) :=
  decidable_of_iff (c ≠ CodePoint.scalar '"' ∧
    (c ≠ CodePoint.scalar '[' ∧ c ≠ CodePoint.scalar '\x7b') ∧
    c ≠ CodePoint.scalar ']' ∧ c ≠ CodePoint.scalar '\x7d')
    ⟨fun ⟨h₁, h₂, h₃⟩ => ⟨h₁, h₂, h₃⟩, fun ⟨h₁, h₂, h₃⟩ => ⟨h₁, h₂, h₃⟩⟩

theorem IsAtomFront.isNeutral (h : IsAtomFront c) : IsNeutral c :=
  ⟨h.ne_quote, ⟨h.ne_list, h.ne_object⟩, h.ne_bracket, h.ne_brace⟩

theorem isNeutral_of_space (h : isSpace c = true) : IsNeutral c := by
  have hne {d : CodePoint} (hd : true ≠ isSpace d) : c ≠ d :=
    ne_of_apply_ne isSpace (h.trans_ne hd)
  exact ⟨hne (by decide), ⟨hne (by decide), hne (by decide)⟩, hne (by decide), hne (by decide)⟩

/-- Outside strings a scan passes over what is neutral. -/
theorem next_neutral (h : IsNeutral c) : Scan.next ⟨.outside, n, k⟩ c = ⟨.outside, n, k⟩ := by
  obtain ⟨hquote, ⟨hlist, hobject⟩, hbracket, hbrace⟩ := h
  simp [Scan.next, hquote, hlist, hobject, hbracket, hbrace]

theorem foldl_neutral (h : ∀ c ∈ t, IsNeutral c) :
    t.foldl Scan.next ⟨.outside, n, k⟩ = ⟨.outside, n, k⟩ := by
  induction t with
  | nil => rfl
  | cons c t ih =>
    rw [List.forall_mem_cons] at h
    rw [List.foldl_cons, next_neutral h.1, ih h.2]

theorem foldl_blank (b : Blank) : b.text.foldl Scan.next ⟨.outside, n, k⟩ = ⟨.outside, n, k⟩ :=
  foldl_neutral fun c hc => isNeutral_of_space (b.isBlank c hc)

theorem isNeutral_of_word : ∀ w ∈ words, ∀ c ∈ w.1, IsNeutral c := by
  simp only [words, List.forall_mem_cons]
  refine ⟨?_, ?_, ?_, ?_, ?_, ?_, List.forall_mem_nil _⟩
  all_goals decide

theorem isNeutral_of_digits {ds : Text} (h : AllDigits ds) : ∀ c ∈ ds, IsNeutral c := fun c hc =>
  (isAtomFront_of_digit (h c hc)).isNeutral

theorem isNeutral_of_whole {ds : Text} (h : IsWhole ds) : ∀ c ∈ ds, IsNeutral c := by
  rcases h with rfl | ⟨-, hdigits, -⟩
  · decide
  · exact isNeutral_of_digits hdigits

theorem isNeutral_of_exponent (e : Exponent) : ∀ c ∈ e.text, IsNeutral c := by
  have hletter : IsNeutral e.letter := by
    rcases e.isLetter with h | h
    · rw [h]
      decide
    · rw [h]
      decide
  have hsign : ∀ c ∈ e.sign, IsNeutral c := by
    rcases e.isSign with h | h | h
    all_goals
      rw [h]
      decide
  rw [Exponent.text, List.forall_mem_cons, List.forall_mem_append]
  exact ⟨hletter, hsign, isNeutral_of_digits e.allDigits⟩

theorem isNeutral_of_number (x : Number) : ∀ c ∈ x.text, IsNeutral c := by
  have hsign : ∀ c ∈ Number.signText x.negative, IsNeutral c := by
    cases x.negative <;> decide
  have hfraction : ∀ c ∈ Number.fractionText x.fraction, IsNeutral c := by
    unfold Number.fractionText
    split
    · exact List.forall_mem_nil _
    · rw [List.forall_mem_cons]
      exact ⟨by decide, isNeutral_of_digits x.isFraction⟩
  have hexponent : ∀ c ∈ Number.exponentText x.exponent, IsNeutral c := by
    cases h : x.exponent with
    | none => exact List.forall_mem_nil _
    | some e => exact isNeutral_of_exponent e
  simp only [Number.text, List.forall_mem_append]
  exact ⟨hsign, isNeutral_of_whole x.isWhole, hfraction, hexponent⟩

/-! ## Strings -/

/-- In a string a scan passes over what is neither a quote nor a backslash. -/
theorem next_inside (hquote : c ≠ CodePoint.scalar '"') (hback : c ≠ CodePoint.scalar '\\') :
    Scan.next ⟨.inside, n, k⟩ c = ⟨.inside, n, k⟩ := by
  simp [Scan.next, hquote, hback]

theorem next_hexDigit {d : Nat} (h : c.hexDigit? = some d) :
    Scan.next ⟨.inside, n, k⟩ c = ⟨.inside, n, k⟩ := by
  have hne {e : CodePoint} (he : e.hexDigit? = none) : c ≠ e := fun hce => by
    cases h.symm.trans (hce ▸ he)
  exact next_inside (hne (by decide)) (hne (by decide))

theorem foldl_piece (p : Piece) :
    p.text.foldl Scan.next ⟨.inside, n, k⟩ = ⟨.inside, n, k⟩ := by
  cases p with
  | plain c h => exact next_inside h.2.1 h.2.2
  | short letter c h => rfl
  | unicode a b c d x h =>
    unfold hexNumber? at h
    split at h
    · rename_i ha hb hc hd
      change [a, b, c, d].foldl Scan.next ⟨.inside, n, k⟩ = ⟨.inside, n, k⟩
      simp only [List.foldl_cons, List.foldl_nil, next_hexDigit ha, next_hexDigit hb,
        next_hexDigit hc, next_hexDigit hd]
    · cases h

/-- A string ends outside. -/
theorem foldl_closed (ps : List Piece) :
    (Piece.closed ps).foldl Scan.next ⟨.inside, n, k⟩ = ⟨.outside, n, k⟩ := by
  unfold Piece.closed
  rw [List.foldl_append]
  induction ps with
  | nil => rfl
  | cons p ps ih => rw [List.flatMap_cons, List.foldl_append, foldl_piece, ih]

theorem foldl_string (ps : List Piece) :
    (CodePoint.scalar '"' :: Piece.closed ps).foldl Scan.next ⟨.outside, n, k⟩ =
      ⟨.outside, n, k⟩ :=
  foldl_closed ps

theorem foldl_key (ps : List Piece) (b₁ b₂ : Blank) :
    (CodePoint.scalar '"' :: keyText ps b₁ b₂).foldl Scan.next ⟨.outside, n, k⟩ =
      ⟨.outside, n, k⟩ := by
  have hcolon : Scan.next ⟨.outside, n, k⟩ (CodePoint.scalar ':') = ⟨.outside, n, k⟩ :=
    next_neutral (by decide)
  rw [keyText, ← List.cons_append, List.foldl_append, foldl_string, List.foldl_append, foldl_blank,
    List.foldl_cons, hcolon, foldl_blank]

/-! ## Trees -/

/-- Behind an opening bracket or brace one more container is open. -/
theorem foldl_opening (hc : c = CodePoint.scalar '[' ∨ c = CodePoint.scalar '\x7b') (b : Blank)
    (t : Text) : (c :: (b.text ++ t)).foldl Scan.next ⟨.outside, n, k⟩ =
      t.foldl Scan.next ⟨.outside, n + 1, max k (n + 1)⟩ := by
  have hopen : Scan.next ⟨.outside, n, k⟩ c = ⟨.outside, n + 1, max k (n + 1)⟩ := by
    rcases hc with rfl | rfl <;> rfl
  rw [List.foldl_cons, hopen, List.foldl_append, foldl_blank]

theorem next_comma : Scan.next ⟨.outside, n, k⟩ (CodePoint.scalar ',') = ⟨.outside, n, k⟩ :=
  next_neutral (by decide)

mutual

/-- **A scan of a tree ends where it starts, as deep as the tree is.** -/
theorem foldl_doc : (d : Doc) → {n k : Nat} → n ≤ k →
    d.text.foldl Scan.next ⟨.outside, n, k⟩ = ⟨.outside, n, max k (n + d.depth)⟩
  | .word w v h, n, k, hnk => by
    rw [Doc.text, foldl_neutral (isNeutral_of_word _ h)]
    simp [Doc.depth, hnk]
  | .number x, n, k, hnk => by
    rw [Doc.text, foldl_neutral (isNeutral_of_number x)]
    simp [Doc.depth, hnk]
  | .string ps, n, k, hnk => by
    rw [Doc.text, foldl_string]
    simp [Doc.depth, hnk]
  | .noElements b, n, k, _ => by
    rw [Doc.text, foldl_opening (.inl rfl)]
    rfl
  | .list b items, n, k, _ => by
    rw [Doc.text, foldl_opening (.inl rfl), foldl_items items (Nat.le_max_right ..), Doc.depth]
    simp only [Scan.mk.injEq, true_and]
    omega
  | .noMembers b, n, k, _ => by
    rw [Doc.text, foldl_opening (.inr rfl)]
    rfl
  | .object b items, n, k, _ => by
    rw [Doc.text, foldl_opening (.inr rfl), foldl_entries items (Nat.le_max_right ..), Doc.depth]
    simp only [Scan.mk.injEq, true_and]
    omega

theorem foldl_items : (items : Elements) → {n k : Nat} → n + 1 ≤ k →
    items.text.foldl Scan.next ⟨.outside, n + 1, k⟩ =
      ⟨.outside, n, max k (n + 1 + items.depth)⟩
  | .last d b, n, k, hnk => by
    rw [Elements.text, List.foldl_append, foldl_doc d hnk, List.foldl_append, foldl_blank]
    rfl
  | .more d b₁ b₂ items, n, k, hnk => by
    have hmax := Nat.le_trans hnk (Nat.le_max_left k (n + 1 + d.depth))
    rw [Elements.text, List.foldl_append, foldl_doc d hnk, List.foldl_append, foldl_blank,
      List.foldl_cons, next_comma, List.foldl_append, foldl_blank, foldl_items items hmax,
      Elements.depth]
    simp only [Scan.mk.injEq, true_and]
    omega

theorem foldl_entries : (items : Members) → {n k : Nat} → n + 1 ≤ k →
    items.text.foldl Scan.next ⟨.outside, n + 1, k⟩ =
      ⟨.outside, n, max k (n + 1 + items.depth)⟩
  | .last key b₁ b₂ d b₃, n, k, hnk => by
    rw [Members.text, ← List.cons_append, List.foldl_append, foldl_key, List.foldl_append,
      foldl_doc d hnk, List.foldl_append, foldl_blank]
    rfl
  | .more key b₁ b₂ d b₃ b₄ items, n, k, hnk => by
    have hmax := Nat.le_trans hnk (Nat.le_max_left k (n + 1 + d.depth))
    rw [Members.text, ← List.cons_append, List.foldl_append, foldl_key, List.foldl_append,
      foldl_doc d hnk, List.foldl_append, foldl_blank, List.foldl_cons, next_comma,
      List.foldl_append, foldl_blank, foldl_entries items hmax, Members.depth]
    simp only [Scan.mk.injEq, true_and]
    omega

end

/-- **The nesting of a JSON text is the depth of its tree.** -/
theorem nesting_text (d : Document) : nesting d.text = d.doc.depth := by
  rw [nesting, Document.text, List.foldl_append, foldl_blank, List.foldl_append,
    foldl_doc _ (Nat.le_refl 0), foldl_blank]
  simp

/-! ## Where reading is too deep -/

theorem exists_trouble_of_escape {start : Text} {e : Halt} (h : escape start s = .error e) :
    ∃ what rest, e = .trouble what rest := by
  unfold escape at h
  split at h
  · exact ⟨_, _, (Except.error.inj h).symm⟩
  · split at h
    · exact ⟨_, _, (Except.error.inj h).symm⟩
    · split at h
      · split at h
        · rename_i hpair
          obtain rfl := Except.error.inj h
          exact exists_trouble_of_pair hpair
        · cases h
      · cases h
  · split at h
    · cases h
    · exact ⟨_, _, (Except.error.inj h).symm⟩

theorem exists_trouble_of_stringBody {start s : Text} {e : Halt}
    (h : stringBody start s = .error e) : ∃ what rest, e = .trouble what rest := by
  unfold stringBody at h
  split at h
  · exact ⟨_, _, (Except.error.inj h).symm⟩
  · cases h
  · split at h
    · rename_i hescape
      obtain rfl := Except.error.inj h
      exact exists_trouble_of_escape hescape
    · split at h
      · rename_i hbody
        obtain rfl := Except.error.inj h
        exact exists_trouble_of_stringBody hbody
      · cases h
  · split at h
    · exact ⟨_, _, (Except.error.inj h).symm⟩
    · split at h
      · rename_i hbody
        obtain rfl := Except.error.inj h
        exact exists_trouble_of_stringBody hbody
      · cases h
termination_by s.length
decreasing_by
  all_goals
    subst_vars
    simp only [List.length_cons]
    omega

theorem stringBody_ne_depth {start : Text} :
    stringBody start s ≠ .error (.depth container) := fun h => by
  obtain ⟨what, rest, he⟩ := exists_trouble_of_stringBody h
  cases he

theorem atom_ne_depth : atom s ≠ .error (.depth container) := fun h => by
  unfold atom at h
  split at h
  · split at h <;> cases h
  · split at h
    · cases h
    · split at h
      · rename_i hvalue
        obtain ⟨hdigits, -⟩ := exists_digits_of_value hvalue
        obtain rfl := Except.error.inj h
        cases hdigits
      · split at h <;> cases h

/-- What a scan of a text comes to, behind the white space at its front. -/
theorem foldl_skip (s : Text) :
    s.foldl Scan.next ⟨.outside, n, k⟩ = (skip s).foldl Scan.next ⟨.outside, n, k⟩ := by
  obtain ⟨b, hb⟩ := exists_blank s
  conv_lhs => rw [hb, List.foldl_append, foldl_blank]

theorem foldl_skip_cons (h : skip s = c :: r) (hc : IsNeutral c) :
    s.foldl Scan.next ⟨.outside, n, k⟩ = (skip r).foldl Scan.next ⟨.outside, n, k⟩ := by
  rw [foldl_skip, h, List.foldl_cons, next_neutral hc, foldl_skip]

/-- Where no room is left, the container itself is one too many. -/
theorem lt_deepest_of_full (hroom : room = 0) (s : Text) :
    n + room < (s.foldl Scan.next ⟨.outside, n + 1, max k (n + 1)⟩).deepest := by
  have hopen := Scan.deepest_le_foldl s ⟨.outside, n + 1, max k (n + 1)⟩
  dsimp only at hopen
  omega

/-- Inside a container there is room for one less, and one more is open. -/
theorem lt_deepest_of_inner (h : n + 1 + (room - 1) <
      ((skip s).foldl Scan.next ⟨.outside, n + 1, max k (n + 1)⟩).deepest) :
    n + room < (s.foldl Scan.next ⟨.outside, n + 1, max k (n + 1)⟩).deepest := by
  rw [foldl_skip]
  omega

mutual

/-- **Reading stops at a container that is too deep only behind as many that are open**, counted
from those that were open before. -/
theorem lt_deepest_of_value {room n k : Nat} {s : Text}
    (h : value room s = .error (.depth container)) :
    n + room < (s.foldl Scan.next ⟨.outside, n, k⟩).deepest := by
  unfold value at h
  split at h
  · split at h
    · rename_i hbody
      obtain rfl := Except.error.inj h
      exact absurd hbody stringBody_ne_depth
    · cases h
  · rename_i rest
    change _ < (rest.foldl Scan.next ⟨.outside, n + 1, max k (n + 1)⟩).deepest
    split at h
    · rename_i hroom
      exact lt_deepest_of_full hroom rest
    · split at h
      · cases h
      · have hlength := length_skip_le rest
        split at h
        · rename_i helements
          obtain rfl := Except.error.inj h
          exact lt_deepest_of_inner (lt_deepest_of_elements (Nat.le_max_right k (n + 1)) helements)
        · cases h
  · rename_i rest
    change _ < (rest.foldl Scan.next ⟨.outside, n + 1, max k (n + 1)⟩).deepest
    split at h
    · rename_i hroom
      exact lt_deepest_of_full hroom rest
    · split at h
      · cases h
      · have hlength := length_skip_le rest
        split at h
        · rename_i hmembers
          obtain rfl := Except.error.inj h
          exact lt_deepest_of_inner (lt_deepest_of_members (Nat.le_max_right k (n + 1)) hmembers)
        · cases h
  · exact absurd h atom_ne_depth
termination_by 2 * s.length
decreasing_by
  all_goals
    subst_vars
    simp only [List.length_cons]
    omega

theorem lt_deepest_of_elements {room n k : Nat} {s : Text} (hnk : n ≤ k)
    (h : elements room s = .error (.depth container)) :
    n + room < (s.foldl Scan.next ⟨.outside, n, k⟩).deepest := by
  unfold elements at h
  split at h
  · rename_i hvalue
    obtain rfl := Except.error.inj h
    exact lt_deepest_of_value hvalue
  · rename_i v rest hlt hvalue
    split at h
    · cases h
    · rename_i s₁ hs
      have hlength := length_skip_lt hs
      split at h
      · rename_i helements
        obtain rfl := Except.error.inj h
        -- what was read before is a tree, behind which as many are open as in front of it
        obtain ⟨d, rfl, -⟩ := exists_doc hvalue
        rw [List.foldl_append, foldl_doc d hnk, foldl_skip_cons hs (by decide)]
        exact lt_deepest_of_elements (Nat.le_trans hnk (Nat.le_max_left ..)) helements
      · cases h
    · cases h
termination_by 2 * s.length + 1
decreasing_by all_goals omega

theorem lt_deepest_of_members {room n k : Nat} {es : Entries} {s : Text} (hnk : n ≤ k)
    (h : members room es s = .error (.depth container)) :
    n + room < (s.foldl Scan.next ⟨.outside, n, k⟩).deepest := by
  unfold members at h
  split at h
  · rename_i s₁
    split at h
    · rename_i hkey
      obtain rfl := Except.error.inj h
      exact absurd hkey stringBody_ne_depth
    · rename_i key s₂ hlt₂ hkey
      obtain ⟨ps, rfl, -⟩ := Piece.exists_of_stringBody hkey
      rw [← List.cons_append, List.foldl_append, foldl_string]
      split at h
      · rename_i s₃ hs₂
        have hlength := length_skip_lt hs₂
        rw [foldl_skip_cons hs₂ (by decide)]
        split at h
        · rename_i hvalue
          obtain rfl := Except.error.inj h
          exact lt_deepest_of_value hvalue
        · rename_i v s₄ hlt₄ hvalue
          obtain ⟨d, hd, -⟩ := exists_doc hvalue
          rw [hd, List.foldl_append, foldl_doc d hnk]
          split at h
          · cases h
          · rename_i s₅ hs₄
            have hlength' := length_skip_lt hs₄
            split at h
            · rename_i hmembers
              obtain rfl := Except.error.inj h
              rw [foldl_skip_cons hs₄ (by decide)]
              exact lt_deepest_of_members (Nat.le_trans hnk (Nat.le_max_left ..)) hmembers
            · cases h
          · cases h
      · cases h
  · cases h
termination_by 2 * s.length + 1
decreasing_by
  all_goals
    subst_vars
    simp only [List.length_cons]
    omega

end

/-- **Only a text that nests deeper than reading can go is refused for its depth.** -/
theorem lt_nesting_of_depth (h : read s = .error (.depth container)) : maxDepth < nesting s := by
  unfold read at h
  dsimp only at h
  split at h
  · cases h
  · split at h
    · rename_i e he
      cases e with
      | depth opened =>
        have hdeep := lt_deepest_of_value (n := 0) (k := 0) he
        rw [← foldl_skip] at hdeep
        rwa [Nat.zero_add] at hdeep
      | trouble | digits => cases h
    · split at h <;> cases h

end Json
end PartialBatch
