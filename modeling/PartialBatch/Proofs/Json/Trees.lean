/-
# What is read is a tree

Whatever the reader accepts is the text of a tree that names the value it returns, within the
limits on depth and digits (`exists_doc`).  Together with the way from trees to values, reading a
whole text is exact (`read_eq_ok_iff`): it succeeds with a value just for the texts that name the
value, white space around them included.

The proof goes along the recursion of the reader and not of the tree, which is only being made; each
reader gives back the tree for what it has consumed, and the blanks that it skipped.
-/

import PartialBatch.Proofs.Json.Grammar
import PartialBatch.Proofs.Json.Places

namespace PartialBatch
namespace Json

variable {room : Nat} {s r : Text} {v : Value}

/-- What a blank and the code point behind it are read off. -/
theorem exists_blank_cons {c : CodePoint} (h : skip s = c :: r) :
    ∃ b : Blank, s = b.text ++ c :: r := by
  obtain ⟨b, hb⟩ := exists_blank s
  exact ⟨b, h ▸ hb⟩

theorem exists_doc_of_atom {hlt} (h : atom s = .ok ⟨v, r, hlt⟩) :
    ∃ d : Doc, s = d.text ++ r ∧ d.value = v ∧ d.depth ≤ room ∧ d.digits ≤ maxDigits := by
  obtain ⟨w, hword, hs⟩ | ⟨x, hs, hvalue, hdigits⟩ := atom_cases h
  · exact ⟨.word w v hword, hs, rfl, Nat.zero_le _, Nat.zero_le _⟩
  · exact ⟨.number x, hs, hvalue, Nat.zero_le _, hdigits⟩

mutual

/-- **What is read as a value is a tree**, within the limits on depth and digits. -/
theorem exists_doc {room : Nat} {s r : Text} {v : Value} {hlt}
    (h : value room s = .ok ⟨v, r, hlt⟩) :
    ∃ d : Doc, s = d.text ++ r ∧ d.value = v ∧ d.depth ≤ room ∧ d.digits ≤ maxDigits := by
  unfold value at h
  -- in front stands a quote, a bracket, a brace or anything else
  split at h
  · split at h
    · cases h
    · rename_i hbody
      cases h
      obtain ⟨ps, rfl, rfl⟩ := Piece.exists_of_stringBody hbody
      exact ⟨.string ps, rfl, rfl, Nat.zero_le _, Nat.zero_le _⟩
  · rename_i rest
    split at h
    · cases h
    · rename_i hroom
      have hdepth {n : Nat} (h : n ≤ room - 1) : n + 1 ≤ room := by omega
      split at h
      · rename_i hs
        cases h
        obtain ⟨b, hb⟩ := exists_blank_cons hs
        refine ⟨.noElements b, ?_, rfl, hdepth (Nat.zero_le _), Nat.zero_le _⟩
        rw [text_noElements, hb]
      · rename_i hs
        have hlength := length_skip_le rest
        split at h
        · cases h
        · rename_i helements
          cases h
          obtain ⟨items, hitems, rfl, hitemsDepth, hdigits⟩ := exists_items helements
          obtain ⟨b, hb⟩ := exists_blank rest
          refine ⟨.list b items, ?_, rfl, hdepth hitemsDepth, hdigits⟩
          rw [text_list, ← hitems, ← hb]
  · rename_i rest
    split at h
    · cases h
    · rename_i hroom
      have hdepth {n : Nat} (h : n ≤ room - 1) : n + 1 ≤ room := by omega
      split at h
      · rename_i hs
        cases h
        obtain ⟨b, hb⟩ := exists_blank_cons hs
        refine ⟨.noMembers b, ?_, rfl, hdepth (Nat.zero_le _), Nat.zero_le _⟩
        rw [text_noMembers, hb]
      · rename_i hs
        have hlength := length_skip_le rest
        split at h
        · cases h
        · rename_i hmembers
          cases h
          obtain ⟨items, hitems, rfl, hitemsDepth, hdigits⟩ := exists_entries hmembers
          obtain ⟨b, hb⟩ := exists_blank rest
          refine ⟨.object b items, ?_, rfl, hdepth hitemsDepth, hdigits⟩
          rw [text_object, ← hitems, ← hb]
  · exact exists_doc_of_atom h
termination_by 2 * s.length
decreasing_by
  all_goals
    subst_vars
    simp only [List.length_cons]
    omega

theorem exists_items {room : Nat} {s r : Text} {vs : List Value} {hlt}
    (h : elements room s = .ok ⟨vs, r, hlt⟩) :
    ∃ items : Elements, s = items.text ++ r ∧ items.values = vs ∧ items.depth ≤ room ∧
      items.digits ≤ maxDigits := by
  unfold elements at h
  split at h
  · cases h
  · rename_i v rest hlt' hvalue
    obtain ⟨d, hd, rfl, hdepth, hdigits⟩ := exists_doc hvalue
    split at h
    · rename_i hs
      cases h
      obtain ⟨b, hb⟩ := exists_blank_cons hs
      refine ⟨.last d b, ?_, rfl, hdepth, hdigits⟩
      rw [text_elements_last, ← hb, hd]
    · rename_i s₁ hs
      have hlength := length_skip_lt hs
      split at h
      · cases h
      · rename_i helements
        cases h
        obtain ⟨items, hitems, rfl, hdepth', hdigits'⟩ := exists_items helements
        obtain ⟨b₁, hb₁⟩ := exists_blank_cons hs
        obtain ⟨b₂, hb₂⟩ := exists_blank s₁
        refine ⟨.more d b₁ b₂ items, ?_, rfl, Nat.max_le.2 ⟨hdepth, hdepth'⟩,
          Nat.max_le.2 ⟨hdigits, hdigits'⟩⟩
        rw [text_elements_more, ← hitems, ← hb₂, ← hb₁, hd]
    · cases h
termination_by 2 * s.length + 1
decreasing_by all_goals omega

theorem exists_entries {room : Nat} {es all : Entries} {s r : Text} {hlt}
    (h : members room es s = .ok ⟨all, r, hlt⟩) :
    ∃ items : Members, s = items.text ++ r ∧ items.entries es = all ∧ items.depth ≤ room ∧
      items.digits ≤ maxDigits := by
  unfold members at h
  split at h
  · rename_i s₁
    split at h
    · cases h
    · rename_i key s₂ hlt₂ hkey
      obtain ⟨ps, hps, rfl⟩ := Piece.exists_of_stringBody hkey
      split at h
      · rename_i s₃ hs₂
        have hlength := length_skip_lt hs₂
        obtain ⟨b₁, hb₁⟩ := exists_blank_cons hs₂
        obtain ⟨b₂, hb₂⟩ := exists_blank s₃
        split at h
        · cases h
        · rename_i v s₄ hlt₄ hvalue
          obtain ⟨d, hd, rfl, hdepth, hdigits⟩ := exists_doc hvalue
          split at h
          · rename_i hs₄
            cases h
            obtain ⟨b₃, hb₃⟩ := exists_blank_cons hs₄
            refine ⟨.last ps b₁ b₂ d b₃, ?_, rfl, hdepth, hdigits⟩
            rw [text_members_last, ← hb₃, ← hd, ← hb₂, ← hb₁, hps]
          · rename_i s₅ hs₄
            have hlength' := length_skip_lt hs₄
            split at h
            · cases h
            · rename_i hmembers
              cases h
              obtain ⟨items, hitems, rfl, hdepth', hdigits'⟩ := exists_entries hmembers
              obtain ⟨b₃, hb₃⟩ := exists_blank_cons hs₄
              obtain ⟨b₄, hb₄⟩ := exists_blank s₅
              refine ⟨.more ps b₁ b₂ d b₃ b₄ items, ?_, rfl, Nat.max_le.2 ⟨hdepth, hdepth'⟩,
                Nat.max_le.2 ⟨hdigits, hdigits'⟩⟩
              rw [text_members_more, ← hitems, ← hb₄, ← hb₃, ← hd, ← hb₂, ← hb₁, hps]
          · cases h
      · cases h
  · cases h
termination_by 2 * s.length + 1
decreasing_by
  all_goals
    subst_vars
    simp only [List.length_cons]
    omega

end

/-! ## Whole texts -/

/-- No byte order mark stands at the front of a JSON text. -/
theorem Document.ne_mark (d : Document) (t : Text) :
    d.text ≠ CodePoint.scalar '\ufeff' :: t := by
  intro h
  obtain ⟨⟨before, hbefore⟩, doc, after⟩ := d
  cases before with
  | nil =>
    obtain ⟨c, t', htext, hc⟩ := exists_front doc
    rw [text, htext] at h
    exact hc.ne_mark (List.cons.inj h).1
  | cons c before =>
    have hspace := hbefore c (List.mem_cons_self ..)
    obtain rfl : c = CodePoint.scalar '\ufeff' := (List.cons.inj h).1
    exact absurd hspace (by decide)

theorem skip_eq_nil (b : Blank) : skip b.text = [] := List.dropWhile_eq_nil_iff.2 b.isBlank

/-- Nothing but white space ends a number as well. -/
theorem delimits_after (b : Blank) : Delimits b.text := by
  have hnil : Delimits [] := fun c hc => nomatch hc
  simpa using delimits_blank b hnil

/-- **A JSON text is read as the value that it names**, within the limits. -/
theorem read_text (d : Document) (h : d.Fits) : read d.text = .ok d.value := by
  have hgives : Gives (value maxDepth (skip d.text)) d.value d.after.text := by
    rw [Document.text, skip_front (exists_front d.doc)]
    exact gives_doc d.doc h.1 h.2 (delimits_after d.after)
  obtain ⟨hlt, hvalue⟩ := hgives
  unfold read
  dsimp only
  split
  · rename_i hmark
    exact absurd hmark (d.ne_mark _)
  · simp only [hvalue, skip_eq_nil]

/-- **What is read is a JSON text**, within the limits. -/
theorem exists_document (h : read s = .ok v) :
    ∃ d : Document, d.text = s ∧ d.value = v ∧ d.Fits := by
  unfold read at h
  dsimp only at h
  split at h
  · cases h
  · split at h
    · cases h
    · rename_i rest hlt hvalue
      split at h
      · rename_i hrest
        obtain rfl := Except.ok.inj h
        obtain ⟨d, hd, hv, hdepth, hdigits⟩ := exists_doc hvalue
        obtain ⟨before, hbefore⟩ := exists_blank s
        obtain ⟨after, hafter⟩ := exists_blank rest
        rw [hrest, List.append_nil] at hafter
        exact ⟨⟨before, d, after⟩, by rw [Document.text, ← hafter, ← hd, ← hbefore], hv,
          hdepth, hdigits⟩
      · cases h

/-- Reading is exact: a text is read as a value if and only if it is the text of a tree that names
the value, and within the limits. -/
theorem read_eq_ok_iff : read s = .ok v ↔ ∃ d : Document, d.text = s ∧ d.value = v ∧ d.Fits := by
  constructor
  · exact exists_document
  · rintro ⟨d, rfl, rfl, hfits⟩
    exact read_text d hfits

/-- Whether a JSON text names an object. -/
def Document.isObject (d : Document) : Bool :=
  match d.doc with
  | .noMembers _ | .object _ _ => true
  | _ => false

theorem Document.isObject_iff (d : Document) :
    d.isObject = true ↔ ∃ es, d.value = .object es := by
  obtain ⟨before, doc, after⟩ := d
  unfold isObject value
  cases doc with
  | word w v h =>
    have hword : ∀ w ∈ words, ∀ es, w.2 ≠ .object es := by simp [words]
    simpa [Doc.value] using hword _ h
  | number x =>
    have hnumber (es : Entries) : x.value ≠ .object es := by
      unfold Number.value
      dsimp only
      split <;> exact fun h => Value.noConfusion h
    simpa [Doc.value] using hnumber
  | _ => simp [Doc.value]

/-- Whether a text is the JSON text of an object. -/
def IsObjectText (s : Text) : Prop := ∃ d : Document, d.text = s ∧ d.isObject = true

/-- The JSON text of an object starts with a brace. -/
theorem IsObjectText.exists_brace (h : IsObjectText s) :
    ∃ t, skip s = CodePoint.scalar '\x7b' :: t := by
  obtain ⟨⟨before, doc, after⟩, rfl, hobject⟩ := h
  refine ⟨doc.text.tail ++ after.text, ?_⟩
  rw [Document.text, skip_front (exists_front doc)]
  cases doc with
  | noMembers | object => rfl
  | _ => cases hobject

/-- The text of an integer of too many digits is refused. -/
theorem read_of_long {d : Document} {x : Number} (hdoc : d.doc = .number x)
    (h : maxDigits < x.digits) : read d.text = .error (.digits x.digits) := by
  have hatom : value maxDepth (skip d.text) = .error (.digits x.digits) := by
    rw [Document.text, skip_front (exists_front _), hdoc, Doc.text,
      value_of_atomFront (exists_front_number x)]
    exact atom_of_long x h (delimits_after _)
  unfold read
  dsimp only
  split
  · rename_i hmark
    exact absurd hmark (d.ne_mark _)
  · simp only [hatom]

end Json
end PartialBatch
