/-
# Integers of too many digits

A JSON text with an integer of more digits than the limit is not read, wherever the integer stands,
unless reading is stopped by the depth first (`read_of_overlong`).  What stands before the first
such integer is read as in any other tree, so the induction on the tree of `gives_doc` is taken
again with one case for each place where the integer can stand:

| it stands in | step |
| --- | --- |
| an element, an entry | `stops_elements_here`, `stops_members_here` |
| a later element, a later entry | `stops_elements_later`, `stops_members_later` |
| a list, an object | `stops_list`, `stops_object` |
-/

import PartialBatch.Proofs.Json.Trees

namespace PartialBatch
namespace Json

/-- Whether a reader stops at an integer of too many digits. -/
def Stops {α : Type} {s : Text} (r : Except Halt (Step α s)) : Prop :=
  ∃ count, r = .error (.digits count)

variable {room : Nat} {s s' s₁ s₂ s₃ s₄ s₅ r key : Text} {v : Value} {es : Entries}

/-! ## One step of reading -/

theorem stops_list (hroom : room ≠ 0) (hclose : ∀ r, skip s ≠ CodePoint.scalar ']' :: r)
    (h : Stops (elements (room - 1) (skip s))) :
    Stops (value room (CodePoint.scalar '[' :: s)) := by
  obtain ⟨count, h⟩ := h
  unfold value
  simp only [if_neg hroom]
  split
  · rename_i he
    cases h.symm.trans he
    exact ⟨count, rfl⟩
  · rename_i he
    cases h.symm.trans he

theorem stops_object (hroom : room ≠ 0) (hclose : ∀ r, skip s ≠ CodePoint.scalar '\x7d' :: r)
    (h : Stops (members (room - 1) [] (skip s))) :
    Stops (value room (CodePoint.scalar '\x7b' :: s)) := by
  obtain ⟨count, h⟩ := h
  unfold value
  simp only [if_neg hroom]
  split
  · rename_i he
    cases h.symm.trans he
    exact ⟨count, rfl⟩
  · rename_i he
    cases h.symm.trans he

theorem stops_elements_here (h : Stops (value room s)) : Stops (elements room s) := by
  obtain ⟨count, h⟩ := h
  unfold elements
  simp only [h]
  exact ⟨count, rfl⟩

theorem stops_elements_later (h : Gives (value room s) v s')
    (hs : skip s' = CodePoint.scalar ',' :: s₁) (hrest : Stops (elements room (skip s₁))) :
    Stops (elements room s) := by
  obtain ⟨hlt, h⟩ := h
  obtain ⟨count, hrest⟩ := hrest
  unfold elements
  simp only [h]
  split
  · rename_i heq
    cases (List.cons.inj (hs.symm.trans heq)).1
  · rename_i heq
    obtain ⟨-, rfl⟩ := List.cons.inj (hs.symm.trans heq)
    simp only [hrest]
    exact ⟨count, rfl⟩
  · rename_i hcomma
    exact absurd hs (hcomma s₁)

theorem stops_members_here (hkey : Gives (stringBody (CodePoint.scalar '"' :: s₁) s₁) key s₂)
    (hs₂ : skip s₂ = CodePoint.scalar ':' :: s₃) (hvalue : Stops (value room (skip s₃))) :
    Stops (members room es (CodePoint.scalar '"' :: s₁)) := by
  obtain ⟨hlt, hkey⟩ := hkey
  obtain ⟨count, hvalue⟩ := hvalue
  unfold members
  simp only [hkey]
  split
  · rename_i heq
    obtain ⟨-, rfl⟩ := List.cons.inj (hs₂.symm.trans heq)
    simp only [hvalue]
    exact ⟨count, rfl⟩
  · rename_i hcolon
    exact absurd hs₂ (hcolon s₃)

theorem stops_members_later (hkey : Gives (stringBody (CodePoint.scalar '"' :: s₁) s₁) key s₂)
    (hs₂ : skip s₂ = CodePoint.scalar ':' :: s₃) (hvalue : Gives (value room (skip s₃)) v s₄)
    (hs₄ : skip s₄ = CodePoint.scalar ',' :: s₅)
    (hrest : Stops (members room (es.put key v) (skip s₅))) :
    Stops (members room es (CodePoint.scalar '"' :: s₁)) := by
  obtain ⟨hlt, hkey⟩ := hkey
  obtain ⟨hlt', hvalue⟩ := hvalue
  obtain ⟨count, hrest⟩ := hrest
  unfold members
  simp only [hkey]
  split
  · rename_i heq
    obtain ⟨-, rfl⟩ := List.cons.inj (hs₂.symm.trans heq)
    simp only [hvalue]
    split
    · rename_i heq'
      cases (List.cons.inj (hs₄.symm.trans heq')).1
    · rename_i heq'
      obtain ⟨-, rfl⟩ := List.cons.inj (hs₄.symm.trans heq')
      simp only [hrest]
      exact ⟨count, rfl⟩
    · rename_i hcomma
      exact absurd hs₄ (hcomma s₅)
  · rename_i hcolon
    exact absurd hs₂ (hcolon s₃)

/-! ## Trees -/

mutual

/-- **A tree with an integer of too many digits is not read**, if it is within the limit on depth.
-/
theorem stops_doc : (d : Doc) → {room : Nat} → {rest : Text} → d.depth ≤ room →
    maxDigits < d.digits → Delimits rest → Stops (value room (d.text ++ rest))
  | .number x, room, rest, _, hdigits, hrest => by
    rw [Doc.text, value_of_atomFront (exists_front_number x)]
    exact ⟨x.digits, atom_of_long x hdigits hrest⟩
  | .list b items, room, rest, hdepth, hdigits, _ => by
    obtain ⟨hroom, hitems⟩ := room_of_depth hdepth
    have hskip := skip_front (exists_front_elements items) b rest
    rw [text_list]
    refine stops_list hroom (fun r hr => ?_) ?_
    · obtain ⟨c, t, hfront, hc⟩ := exists_front_elements items
      rw [hskip, hfront] at hr
      exact hc.ne_bracket (List.cons.inj hr).1
    · rw [hskip]
      exact stops_items items hitems hdigits
  | .object b items, room, rest, hdepth, hdigits, _ => by
    obtain ⟨hroom, hitems⟩ := room_of_depth hdepth
    have hskip := skip_front (exists_front_members items) b rest
    rw [text_object]
    refine stops_object hroom (fun r hr => ?_) ?_
    · obtain ⟨c, t, hfront, hc⟩ := exists_front_members items
      rw [hskip, hfront] at hr
      exact hc.ne_brace (List.cons.inj hr).1
    · rw [hskip]
      exact stops_entries items hitems hdigits

theorem stops_items : (items : Elements) → {room : Nat} → {rest : Text} → items.depth ≤ room →
    maxDigits < items.digits → Stops (elements room (items.text ++ rest))
  | .last d b, room, rest, hdepth, hdigits => by
    rw [text_elements_last]
    exact stops_elements_here
      (stops_doc d hdepth hdigits (delimits_blank b (delimits_cons (by decide))))
  | .more d b₁ b₂ items, room, rest, hdepth, hdigits => by
    obtain ⟨hd, hitems⟩ := Nat.max_le.1 hdepth
    have hdelimits : Delimits
        (b₁.text ++ CodePoint.scalar ',' :: (b₂.text ++ (items.text ++ rest))) :=
      delimits_blank b₁ (delimits_cons (by decide))
    rw [text_elements_more]
    by_cases hlong : maxDigits < d.digits
    · exact stops_elements_here (stops_doc d hd hlong hdelimits)
    · have hcomma := skip_blank b₁ (c := CodePoint.scalar ',') (by decide)
        (b₂.text ++ (items.text ++ rest))
      refine stops_elements_later (gives_doc d hd (Nat.le_of_not_lt hlong) hdelimits) hcomma ?_
      rw [Elements.digits] at hdigits
      rw [skip_front (exists_front_elements items)]
      exact stops_items items hitems (by omega)

theorem stops_entries : (items : Members) → {room : Nat} → {es : Entries} → {rest : Text} →
    items.depth ≤ room → maxDigits < items.digits → Stops (members room es (items.text ++ rest))
  | .last key b₁ b₂ d b₃, room, es, rest, hdepth, hdigits => by
    have hcolon := skip_blank b₁ (c := CodePoint.scalar ':') (by decide)
      (b₂.text ++ (d.text ++ (b₃.text ++ CodePoint.scalar '\x7d' :: rest)))
    rw [text_members_last]
    refine stops_members_here (Piece.gives_closed _ key _) hcolon ?_
    rw [skip_front (exists_front d)]
    exact stops_doc d hdepth hdigits (delimits_blank b₃ (delimits_cons (by decide)))
  | .more key b₁ b₂ d b₃ b₄ items, room, es, rest, hdepth, hdigits => by
    obtain ⟨hd, hitems⟩ := Nat.max_le.1 hdepth
    have hcolon := skip_blank b₁ (c := CodePoint.scalar ':') (by decide)
      (b₂.text ++ (d.text ++ (b₃.text ++ CodePoint.scalar ',' ::
        (b₄.text ++ (items.text ++ rest)))))
    have hdelimits : Delimits
        (b₃.text ++ CodePoint.scalar ',' :: (b₄.text ++ (items.text ++ rest))) :=
      delimits_blank b₃ (delimits_cons (by decide))
    rw [text_members_more]
    by_cases hlong : maxDigits < d.digits
    · refine stops_members_here (Piece.gives_closed _ key _) hcolon ?_
      rw [skip_front (exists_front d)]
      exact stops_doc d hd hlong hdelimits
    · have hcomma := skip_blank b₃ (c := CodePoint.scalar ',') (by decide)
        (b₄.text ++ (items.text ++ rest))
      have hvalue := gives_doc d hd (Nat.le_of_not_lt hlong) hdelimits
      rw [← skip_front (exists_front d) b₂] at hvalue
      refine stops_members_later (Piece.gives_closed _ key _) hcolon hvalue hcomma ?_
      rw [Members.digits] at hdigits
      rw [skip_front (exists_front_members items)]
      exact stops_entries items hitems (by omega)

end

/-- **A JSON text with an integer of too many digits is refused for it**, if it is within the limit
on depth. -/
theorem read_of_overlong {d : Document} (hdepth : d.doc.depth ≤ maxDepth)
    (h : maxDigits < d.doc.digits) : ∃ count, read d.text = .error (.digits count) := by
  have hstops : Stops (value maxDepth (skip d.text)) := by
    rw [Document.text, skip_front (exists_front d.doc)]
    exact stops_doc d.doc hdepth h (delimits_after d.after)
  obtain ⟨count, hvalue⟩ := hstops
  refine ⟨count, ?_⟩
  unfold read
  dsimp only
  split
  · rename_i hmark
    exact absurd hmark (d.ne_mark _)
  · simp only [hvalue]

end Json
end PartialBatch
