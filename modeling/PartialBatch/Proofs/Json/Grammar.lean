/-
# Trees are read

The text of a tree is read as the value that the tree names, if the tree is within the limits on
depth and digits and nothing behind it continues a number (`gives_doc`).  The induction is on the
tree; each node is one step of the reader, whose lemma takes the readings of its parts.

| node | step |
| --- | --- |
| word, number | `gives_atom_word`, `gives_atom_number` |
| string | `gives_string` |
| list | `gives_noElements`, `gives_list` |
| object | `gives_noMembers`, `gives_object` |
| elements | `gives_elements_last`, `gives_elements_more` |
| entries | `gives_members_last`, `gives_members_more` |

Which step is taken depends on the code point in front, so what can stand at the front of a value is
settled first (`IsFront`): white space ends there, and no closing bracket is mistaken for it.
-/

import PartialBatch.Proofs.Json.Numbers
import PartialBatch.Proofs.Json.Strings

namespace PartialBatch
namespace Json

variable {room : Nat} {s s' s₁ s₂ s₃ s₄ s₅ r t key : Text} {v : Value} {vs : List Value}
  {es all : Entries}

/-! ## One step of reading -/

theorem value_eq_atom (h : ∀ c ∈ s.head?, c ≠ CodePoint.scalar '"' ∧ c ≠ CodePoint.scalar '[' ∧
    c ≠ CodePoint.scalar '\x7b') : value room s = atom s := by
  unfold value
  split
  · exact absurd rfl (h _ rfl).1
  · exact absurd rfl (h _ rfl).2.1
  · exact absurd rfl (h _ rfl).2.2
  · rfl

theorem gives_string (h : Gives (stringBody (CodePoint.scalar '"' :: s) s) t r) :
    Gives (value room (CodePoint.scalar '"' :: s)) (.text t) r := by
  obtain ⟨hlt, h⟩ := h
  unfold value
  simp only [h]
  exact ⟨_, rfl⟩

theorem gives_noElements (hroom : room ≠ 0) (hs : skip s = CodePoint.scalar ']' :: r) :
    Gives (value room (CodePoint.scalar '[' :: s)) (.list []) r := by
  unfold value
  simp only [if_neg hroom]
  split
  · rename_i heq
    obtain ⟨-, rfl⟩ := List.cons.inj (hs.symm.trans heq)
    exact ⟨_, rfl⟩
  · rename_i hclose
    exact absurd hs (hclose r)

theorem gives_list (hroom : room ≠ 0) (hclose : ∀ r, skip s ≠ CodePoint.scalar ']' :: r)
    (h : Gives (elements (room - 1) (skip s)) vs r) :
    Gives (value room (CodePoint.scalar '[' :: s)) (.list vs) r := by
  obtain ⟨hlt, h⟩ := h
  unfold value
  simp only [if_neg hroom]
  split
  · rename_i he
    cases h.symm.trans he
  · rename_i he
    cases h.symm.trans he
    exact ⟨_, rfl⟩

theorem gives_noMembers (hroom : room ≠ 0) (hs : skip s = CodePoint.scalar '\x7d' :: r) :
    Gives (value room (CodePoint.scalar '\x7b' :: s)) (.object []) r := by
  unfold value
  simp only [if_neg hroom]
  split
  · rename_i heq
    obtain ⟨-, rfl⟩ := List.cons.inj (hs.symm.trans heq)
    exact ⟨_, rfl⟩
  · rename_i hclose
    exact absurd hs (hclose r)

theorem gives_object (hroom : room ≠ 0) (hclose : ∀ r, skip s ≠ CodePoint.scalar '\x7d' :: r)
    (h : Gives (members (room - 1) [] (skip s)) es r) :
    Gives (value room (CodePoint.scalar '\x7b' :: s)) (.object es) r := by
  obtain ⟨hlt, h⟩ := h
  unfold value
  simp only [if_neg hroom]
  split
  · rename_i he
    cases h.symm.trans he
  · rename_i he
    cases h.symm.trans he
    exact ⟨_, rfl⟩

theorem gives_elements_last (h : Gives (value room s) v s')
    (hs : skip s' = CodePoint.scalar ']' :: r) : Gives (elements room s) [v] r := by
  obtain ⟨hlt, h⟩ := h
  unfold elements
  simp only [h]
  split
  · rename_i heq
    obtain ⟨-, rfl⟩ := List.cons.inj (hs.symm.trans heq)
    exact ⟨_, rfl⟩
  · rename_i heq
    cases (List.cons.inj (hs.symm.trans heq)).1
  · rename_i hclose _
    exact absurd hs (hclose r)

theorem gives_elements_more (h : Gives (value room s) v s')
    (hs : skip s' = CodePoint.scalar ',' :: s₁) (hrest : Gives (elements room (skip s₁)) vs r) :
    Gives (elements room s) (v :: vs) r := by
  obtain ⟨hlt, h⟩ := h
  obtain ⟨hlt', hrest⟩ := hrest
  unfold elements
  simp only [h]
  split
  · rename_i heq
    cases (List.cons.inj (hs.symm.trans heq)).1
  · rename_i heq
    obtain ⟨-, rfl⟩ := List.cons.inj (hs.symm.trans heq)
    simp only [hrest]
    exact ⟨_, rfl⟩
  · rename_i hcomma
    exact absurd hs (hcomma s₁)

theorem gives_members_last (hkey : Gives (stringBody (CodePoint.scalar '"' :: s₁) s₁) key s₂)
    (hs₂ : skip s₂ = CodePoint.scalar ':' :: s₃) (hvalue : Gives (value room (skip s₃)) v s₄)
    (hs₄ : skip s₄ = CodePoint.scalar '\x7d' :: r) :
    Gives (members room es (CodePoint.scalar '"' :: s₁)) (es.put key v) r := by
  obtain ⟨hlt, hkey⟩ := hkey
  obtain ⟨hlt', hvalue⟩ := hvalue
  unfold members
  simp only [hkey]
  split
  · rename_i heq
    obtain ⟨-, rfl⟩ := List.cons.inj (hs₂.symm.trans heq)
    simp only [hvalue]
    split
    · rename_i heq'
      obtain ⟨-, rfl⟩ := List.cons.inj (hs₄.symm.trans heq')
      exact ⟨_, rfl⟩
    · rename_i heq'
      cases (List.cons.inj (hs₄.symm.trans heq')).1
    · rename_i hclose _
      exact absurd hs₄ (hclose r)
  · rename_i hcolon
    exact absurd hs₂ (hcolon s₃)

theorem gives_members_more (hkey : Gives (stringBody (CodePoint.scalar '"' :: s₁) s₁) key s₂)
    (hs₂ : skip s₂ = CodePoint.scalar ':' :: s₃) (hvalue : Gives (value room (skip s₃)) v s₄)
    (hs₄ : skip s₄ = CodePoint.scalar ',' :: s₅)
    (hrest : Gives (members room (es.put key v) (skip s₅)) all r) :
    Gives (members room es (CodePoint.scalar '"' :: s₁)) all r := by
  obtain ⟨hlt, hkey⟩ := hkey
  obtain ⟨hlt', hvalue⟩ := hvalue
  obtain ⟨hlt'', hrest⟩ := hrest
  unfold members
  simp only [hkey]
  split
  · rename_i heq
    obtain ⟨-, rfl⟩ := List.cons.inj (hs₂.symm.trans heq)
    simp only [hvalue]
    split
    · rename_i heq'
      cases (List.cons.inj (hs₄.symm.trans heq')).1
    · rename_i heq'
      obtain ⟨-, rfl⟩ := List.cons.inj (hs₄.symm.trans heq')
      simp only [hrest]
      exact ⟨_, rfl⟩
    · rename_i hcomma
      exact absurd hs₄ (hcomma s₅)
  · rename_i hcolon
    exact absurd hs₂ (hcolon s₃)

/-! ## Texts in front of a rest -/

section Texts

variable (b b₁ b₂ b₃ b₄ : Blank) (d : Doc) (ps : List Piece) (rest : Text)

theorem text_noElements : (Doc.noElements b).text ++ rest =
    CodePoint.scalar '[' :: (b.text ++ CodePoint.scalar ']' :: rest) := by
  simp [Doc.text]

theorem text_list (items : Elements) : (Doc.list b items).text ++ rest =
    CodePoint.scalar '[' :: (b.text ++ (items.text ++ rest)) := by
  simp [Doc.text]

theorem text_noMembers : (Doc.noMembers b).text ++ rest =
    CodePoint.scalar '\x7b' :: (b.text ++ CodePoint.scalar '\x7d' :: rest) := by
  simp [Doc.text]

theorem text_object (items : Members) : (Doc.object b items).text ++ rest =
    CodePoint.scalar '\x7b' :: (b.text ++ (items.text ++ rest)) := by
  simp [Doc.text]

theorem text_elements_last : (Elements.last d b).text ++ rest =
    d.text ++ (b.text ++ CodePoint.scalar ']' :: rest) := by
  simp [Elements.text]

theorem text_elements_more (items : Elements) : (Elements.more d b₁ b₂ items).text ++ rest =
    d.text ++ (b₁.text ++ CodePoint.scalar ',' :: (b₂.text ++ (items.text ++ rest))) := by
  simp [Elements.text]

theorem text_members_last : (Members.last ps b₁ b₂ d b₃).text ++ rest =
    CodePoint.scalar '"' :: (Piece.closed ps ++ (b₁.text ++ CodePoint.scalar ':' ::
      (b₂.text ++ (d.text ++ (b₃.text ++ CodePoint.scalar '\x7d' :: rest))))) := by
  simp [Members.text, keyText]

theorem text_members_more (items : Members) : (Members.more ps b₁ b₂ d b₃ b₄ items).text ++ rest =
    CodePoint.scalar '"' :: (Piece.closed ps ++ (b₁.text ++ CodePoint.scalar ':' ::
      (b₂.text ++ (d.text ++ (b₃.text ++ CodePoint.scalar ',' ::
        (b₄.text ++ (items.text ++ rest))))))) := by
  simp [Members.text, keyText]

end Texts

/-! ## What stands at the front -/

/-- Whether a code point can stand at the front of a value. -/
structure IsFront (c : CodePoint) : Prop where
  isSpace : isSpace c = false
  ne_bracket : c ≠ CodePoint.scalar ']'
  ne_brace : c ≠ CodePoint.scalar '\x7d'
  ne_mark : c ≠ CodePoint.scalar '\ufeff'

/-- Whether a code point can stand at the front of a word or a number. -/
structure IsAtomFront (c : CodePoint) : Prop extends IsFront c where
  ne_quote : c ≠ CodePoint.scalar '"'
  ne_list : c ≠ CodePoint.scalar '['
  ne_object : c ≠ CodePoint.scalar '\x7b'

theorem number_of_digit {c : CodePoint} (h : c.digit?.isSome = true) :
    48 ≤ c.number ∧ c.number ≤ 57 := by
  unfold CodePoint.digit? at h
  split at h
  · assumption
  · cases h

theorem isAtomFront_of_digit {c : CodePoint} (h : c.digit?.isSome = true) : IsAtomFront c := by
  have hne {d : CodePoint} (hd : true ≠ d.digit?.isSome) : c ≠ d :=
    ne_of_apply_ne (fun e : CodePoint => e.digit?.isSome) (h.trans_ne hd)
  have hnumber := number_of_digit h
  refine ⟨⟨?_, hne (by decide), hne (by decide), hne (by decide)⟩, hne (by decide),
    hne (by decide), hne (by decide)⟩
  simp only [isSpace, Bool.or_eq_false_iff, decide_eq_false_iff_not]
  omega

instance (c : CodePoint) : Decidable (IsAtomFront c) :=
  decidable_of_iff (isSpace c = false ∧ c ≠ CodePoint.scalar ']' ∧ c ≠ CodePoint.scalar '\x7d' ∧
    c ≠ CodePoint.scalar '\ufeff' ∧ c ≠ CodePoint.scalar '"' ∧ c ≠ CodePoint.scalar '[' ∧
    c ≠ CodePoint.scalar '\x7b')
    ⟨fun ⟨h₁, h₂, h₃, h₄, h₅, h₆, h₇⟩ => ⟨⟨h₁, h₂, h₃, h₄⟩, h₅, h₆, h₇⟩,
      fun ⟨⟨h₁, h₂, h₃, h₄⟩, h₅, h₆, h₇⟩ => ⟨h₁, h₂, h₃, h₄, h₅, h₆, h₇⟩⟩

theorem exists_front_number (x : Number) : ∃ c t, x.text = c :: t ∧ IsAtomFront c := by
  obtain ⟨c, t, htext, hdigit | ⟨rfl, -⟩⟩ := x.text_cases
  · exact ⟨c, t, htext, isAtomFront_of_digit hdigit⟩
  · exact ⟨_, t, htext, by decide⟩

theorem exists_front_word : ∀ w ∈ words, ∃ c t, w.1 = c :: t ∧ IsAtomFront c := by
  simp only [words, List.forall_mem_cons]
  refine ⟨⟨_, _, rfl, ?_⟩, ⟨_, _, rfl, ?_⟩, ⟨_, _, rfl, ?_⟩, ⟨_, _, rfl, ?_⟩, ⟨_, _, rfl, ?_⟩,
    ⟨_, _, rfl, ?_⟩, List.forall_mem_nil _⟩
  all_goals decide

theorem exists_front (d : Doc) : ∃ c t, d.text = c :: t ∧ IsFront c := by
  cases d with
  | word w v h =>
    obtain ⟨c, t, htext, hc⟩ := exists_front_word _ h
    exact ⟨c, t, htext, hc.toIsFront⟩
  | number x =>
    obtain ⟨c, t, htext, hc⟩ := exists_front_number x
    exact ⟨c, t, htext, hc.toIsFront⟩
  | _ => exact ⟨_, _, rfl, by decide, by decide, by decide, by decide⟩

theorem exists_front_elements (items : Elements) : ∃ c t, items.text = c :: t ∧ IsFront c := by
  have hdoc (d : Doc) (u : Text) : ∃ c t, d.text ++ u = c :: t ∧ IsFront c := by
    obtain ⟨c, t, htext, hc⟩ := exists_front d
    exact ⟨c, t ++ u, by rw [htext]; rfl, hc⟩
  cases items with
  | last d b => exact hdoc d _
  | more d b₁ b₂ rest => exact hdoc d _

theorem exists_front_members (items : Members) : ∃ c t, items.text = c :: t ∧ IsFront c := by
  have hquote : IsFront (CodePoint.scalar '"') := by constructor <;> decide
  cases items with
  | last => exact ⟨_, _, rfl, hquote⟩
  | more => exact ⟨_, _, rfl, hquote⟩

/-! ## Trees are read -/

theorem value_of_atomFront (h : ∃ c t', t = c :: t' ∧ IsAtomFront c) (rest : Text) :
    value room (t ++ rest) = atom (t ++ rest) := by
  obtain ⟨c, t', rfl, hc⟩ := h
  refine value_eq_atom fun d hd => ?_
  obtain rfl : c = d := Option.some.inj hd
  exact ⟨hc.ne_quote, hc.ne_list, hc.ne_object⟩

theorem skip_front (h : ∃ c t', t = c :: t' ∧ IsFront c) (b : Blank) (rest : Text) :
    skip (b.text ++ (t ++ rest)) = t ++ rest := by
  obtain ⟨c, t', rfl, hc⟩ := h
  exact skip_blank b hc.isSpace _

theorem delimits_cons {c : CodePoint} (h : c.digit?.isSome = false ∧ c ≠ CodePoint.scalar '.' ∧
    c ≠ CodePoint.scalar 'e' ∧ c ≠ CodePoint.scalar 'E') : Delimits (c :: s) :=
  fun _ hd => Option.some.inj hd ▸ h

/-- White space ends a number. -/
theorem delimits_blank (b : Blank) (h : Delimits s) : Delimits (b.text ++ s) := by
  obtain ⟨text, hblank⟩ := b
  cases text with
  | nil => exact h
  | cons c text =>
    have hspace := hblank c (List.mem_cons_self ..)
    have hne {e : CodePoint} (he : true ≠ isSpace e) : c ≠ e :=
      ne_of_apply_ne isSpace (hspace.trans_ne he)
    refine delimits_cons ⟨?_, hne (by decide), hne (by decide), hne (by decide)⟩
    cases hdigit : c.digit?.isSome with
    | false => rfl
    | true => cases hspace.symm.trans (isAtomFront_of_digit hdigit).isSpace

/-- A container needs room. -/
theorem room_of_depth {n : Nat} (h : n + 1 ≤ room) : room ≠ 0 ∧ n ≤ room - 1 := by omega

mutual

/-- **A tree is read as the value that it names**, within the limits on depth and digits. -/
theorem gives_doc : (d : Doc) → {room : Nat} → {rest : Text} → d.depth ≤ room →
    d.digits ≤ maxDigits → Delimits rest → Gives (value room (d.text ++ rest)) d.value rest
  | .word w v h, room, rest, _, _, _ => by
    rw [Doc.text, value_of_atomFront (exists_front_word _ h)]
    exact gives_atom_word h rest
  | .number x, room, rest, _, hdigits, hrest => by
    rw [Doc.text, value_of_atomFront (exists_front_number x)]
    exact gives_atom_number x hdigits hrest
  | .string ps, room, rest, _, _, _ => gives_string (Piece.gives_closed _ ps rest)
  | .noElements b, room, rest, hdepth, _, _ => by
    have hskip := skip_blank b (c := CodePoint.scalar ']') (by decide) rest
    rw [text_noElements]
    exact gives_noElements (room_of_depth hdepth).1 hskip
  | .list b items, room, rest, hdepth, hdigits, _ => by
    obtain ⟨hroom, hitems⟩ := room_of_depth hdepth
    have hskip := skip_front (exists_front_elements items) b rest
    rw [text_list]
    refine gives_list hroom (fun r hr => ?_) ?_
    · -- the first element is not mistaken for the end of the list
      obtain ⟨c, t, hfront, hc⟩ := exists_front_elements items
      rw [hskip, hfront] at hr
      exact hc.ne_bracket (List.cons.inj hr).1
    · rw [hskip]
      exact gives_items items hitems hdigits
  | .noMembers b, room, rest, hdepth, _, _ => by
    have hskip := skip_blank b (c := CodePoint.scalar '\x7d') (by decide) rest
    rw [text_noMembers]
    exact gives_noMembers (room_of_depth hdepth).1 hskip
  | .object b items, room, rest, hdepth, hdigits, _ => by
    obtain ⟨hroom, hitems⟩ := room_of_depth hdepth
    have hskip := skip_front (exists_front_members items) b rest
    rw [text_object]
    refine gives_object hroom (fun r hr => ?_) ?_
    · obtain ⟨c, t, hfront, hc⟩ := exists_front_members items
      rw [hskip, hfront] at hr
      exact hc.ne_brace (List.cons.inj hr).1
    · rw [hskip]
      exact gives_entries items hitems hdigits

theorem gives_items : (items : Elements) → {room : Nat} → {rest : Text} → items.depth ≤ room →
    items.digits ≤ maxDigits → Gives (elements room (items.text ++ rest)) items.values rest
  | .last d b, room, rest, hdepth, hdigits => by
    have hskip := skip_blank b (c := CodePoint.scalar ']') (by decide) rest
    rw [text_elements_last]
    refine gives_elements_last (gives_doc d hdepth hdigits ?_) hskip
    exact delimits_blank b (delimits_cons (by decide))
  | .more d b₁ b₂ items, room, rest, hdepth, hdigits => by
    obtain ⟨hd, hitems⟩ := Nat.max_le.1 hdepth
    obtain ⟨hd', hitems'⟩ := Nat.max_le.1 hdigits
    have hcomma := skip_blank b₁ (c := CodePoint.scalar ',') (by decide)
      (b₂.text ++ (items.text ++ rest))
    rw [text_elements_more]
    refine gives_elements_more (gives_doc d hd hd' ?_) hcomma ?_
    · exact delimits_blank b₁ (delimits_cons (by decide))
    · rw [skip_front (exists_front_elements items)]
      exact gives_items items hitems hitems'

theorem gives_entries : (items : Members) → {room : Nat} → {es : Entries} → {rest : Text} →
    items.depth ≤ room → items.digits ≤ maxDigits →
    Gives (members room es (items.text ++ rest)) (items.entries es) rest
  | .last key b₁ b₂ d b₃, room, es, rest, hdepth, hdigits => by
    have hcolon := skip_blank b₁ (c := CodePoint.scalar ':') (by decide)
      (b₂.text ++ (d.text ++ (b₃.text ++ CodePoint.scalar '\x7d' :: rest)))
    have hclose := skip_blank b₃ (c := CodePoint.scalar '\x7d') (by decide) rest
    rw [text_members_last]
    refine gives_members_last (Piece.gives_closed _ key _) hcolon ?_ hclose
    rw [skip_front (exists_front d)]
    exact gives_doc d hdepth hdigits (delimits_blank b₃ (delimits_cons (by decide)))
  | .more key b₁ b₂ d b₃ b₄ items, room, es, rest, hdepth, hdigits => by
    obtain ⟨hd, hitems⟩ := Nat.max_le.1 hdepth
    obtain ⟨hd', hitems'⟩ := Nat.max_le.1 hdigits
    have hcolon := skip_blank b₁ (c := CodePoint.scalar ':') (by decide)
      (b₂.text ++ (d.text ++ (b₃.text ++ CodePoint.scalar ',' ::
        (b₄.text ++ (items.text ++ rest)))))
    have hcomma := skip_blank b₃ (c := CodePoint.scalar ',') (by decide)
      (b₄.text ++ (items.text ++ rest))
    have hvalue : Gives (value room (skip (b₂.text ++ (d.text ++ (b₃.text ++
        CodePoint.scalar ',' :: (b₄.text ++ (items.text ++ rest))))))) d.value
        (b₃.text ++ CodePoint.scalar ',' :: (b₄.text ++ (items.text ++ rest))) := by
      rw [skip_front (exists_front d)]
      exact gives_doc d hd hd' (delimits_blank b₃ (delimits_cons (by decide)))
    rw [text_members_more]
    refine gives_members_more (Piece.gives_closed _ key _) hcolon hvalue hcomma ?_
    rw [skip_front (exists_front_members items)]
    exact gives_entries items hitems hitems'

end

end Json
end PartialBatch
