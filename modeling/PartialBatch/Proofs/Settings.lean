/-
# Codes in an environment variable

A text has many writings with blanks around it, and in one of them there are none: that one is what
a segment between commas stands for.  A code is such a text, neither empty nor with a comma in it
(`IsCode`), so it can be told from its neighbours and from a blank segment.

| segment | read as | because |
| --- | --- | --- |
| blanks, a code, blanks | the code | both ends of a code stop what drops blanks (`strip_padded`) |
| blanks alone | nothing | nothing is left of it (`strip_of_isBlank`) |

A segment is one or the other (`exists_padded`), so every text is a writing of the codes that are
read from it (`written_codes`).  A code may have blanks inside.
-/

import PartialBatch.Settings
import PartialBatch.Proofs.Text.Numerals

namespace PartialBatch

/-! ## Blanks around a text -/

namespace Text

variable {c : CodePoint} {l r t : Text}

/-- Whether a text is nothing but blanks. -/
def IsBlank (t : Text) : Prop := ∀ c ∈ t, c.isBlank = true

/-- Whether a text neither starts nor ends with a blank. -/
def IsBare (t : Text) : Prop :=
  (∀ c ∈ t.head?, c.isBlank = false) ∧ ∀ c ∈ t.getLast?, c.isBlank = false

instance : Decidable t.IsBlank := inferInstanceAs (Decidable (∀ c ∈ t, _))

instance : Decidable t.IsBare := inferInstanceAs (Decidable (_ ∧ _))

@[simp] theorem isBlank_nil : IsBlank [] := List.forall_mem_nil _

theorem IsBlank.reverse (h : t.IsBlank) : IsBlank t.reverse :=
  fun c hc => h c (List.mem_reverse.1 hc)

theorem IsBlank.append (hl : l.IsBlank) (hr : r.IsBlank) : IsBlank (l ++ r) :=
  List.forall_mem_append.2 ⟨hl, hr⟩

theorem IsBare.reverse (h : t.IsBare) : IsBare t.reverse := by
  unfold IsBare
  rw [List.head?_reverse, List.getLast?_reverse]
  exact h.symm

/-- Blanks are dropped up to the first code point of a bare text. -/
theorem dropWhile_isBlank (hl : l.IsBlank) (ht : t.IsBare) (hsome : t ≠ []) :
    (l ++ t ++ r).dropWhile CodePoint.isBlank = t ++ r := by
  obtain ⟨c, rest, rfl⟩ := List.exists_cons_of_ne_nil hsome
  rw [List.append_assoc, List.dropWhile_append_of_pos hl]
  exact List.dropWhile_cons_of_neg (by simp [ht.1 c rfl])

/-- **A bare text is what is left of it with blanks around it**. -/
theorem strip_padded (hl : l.IsBlank) (hr : r.IsBlank) (ht : t.IsBare) (hsome : t ≠ []) :
    (l ++ t ++ r).strip = t := by
  have hback : (t ++ r).reverse.dropWhile CodePoint.isBlank = t.reverse := by
    have h := dropWhile_isBlank (r := []) hr.reverse ht.reverse (by simpa using hsome)
    simpa using h
  rw [strip, trim, dropWhile_isBlank hl ht hsome, hback, List.reverse_reverse]

theorem strip_of_isBlank (h : t.IsBlank) : t.strip = [] := by
  rw [strip, trim, List.dropWhile_eq_nil_iff.2 h]
  rfl

theorem strip_of_isBare (h : t.IsBare) : t.strip = t := by
  by_cases hnil : t = []
  · subst hnil
    rfl
  · simpa using strip_padded isBlank_nil isBlank_nil h hnil

theorem exists_start (t : Text) :
    ∃ l u : Text, l.IsBlank ∧ (∀ c ∈ u.head?, c.isBlank = false) ∧ t = l ++ u := by
  induction t with
  | nil => exact ⟨[], [], List.forall_mem_nil _, by simp, rfl⟩
  | cons c rest ih =>
    by_cases hc : c.isBlank = true
    · obtain ⟨l, u, hl, hu, rfl⟩ := ih
      exact ⟨c :: l, u, List.forall_mem_cons.2 ⟨hc, hl⟩, hu, rfl⟩
    · exact ⟨[], c :: rest, List.forall_mem_nil _, by simpa using hc, rfl⟩

/-- Every text is a bare one with blanks around it. -/
theorem exists_bare (t : Text) :
    ∃ l u r : Text, l.IsBlank ∧ u.IsBare ∧ r.IsBlank ∧ t = l ++ u ++ r := by
  obtain ⟨l, v, hl, hfirst, rfl⟩ := exists_start t
  obtain ⟨r, u, hr, hlast, hv⟩ := exists_start v.reverse
  obtain rfl : v = u.reverse ++ r.reverse := by
    rw [← List.reverse_append, ← hv, List.reverse_reverse]
  refine ⟨l, u.reverse, r.reverse, hl, ⟨fun c hc => hfirst c ?_, ?_⟩, hr.reverse, ?_⟩
  · rw [List.head?_append, hc]
    rfl
  · rwa [List.getLast?_reverse]
  · rw [List.append_assoc]

/-- What is left of a text is bare, and only blanks were around it. -/
theorem exists_padded (t : Text) :
    ∃ l r : Text, l.IsBlank ∧ t.strip.IsBare ∧ r.IsBlank ∧ t = l ++ t.strip ++ r := by
  obtain ⟨l, u, r, hl, hu, hr, rfl⟩ := exists_bare t
  have hstrip : strip (l ++ u ++ r) = u := by
    by_cases hnil : u = []
    · subst hnil
      rw [List.append_nil]
      exact strip_of_isBlank (hl.append hr)
    · exact strip_padded hl hr hu hnil
  exact ⟨l, r, hl, hstrip.symm ▸ hu, hr, by rw [hstrip]⟩

/-- A part of a text does not hold what it is cut at. -/
theorem notMem_of_mem_splitOn {s : Text} (h : s ∈ t.splitOn c) : c ∉ s := by
  induction t generalizing s with
  | nil =>
    obtain rfl := List.mem_singleton.1 h
    exact List.not_mem_nil
  | cons d rest ih =>
    rw [splitOn] at h
    split at h
    · obtain rfl | h := List.mem_cons.1 h
      · exact List.not_mem_nil
      · exact ih h
    · rename_i hd
      cases hparts : splitOn c rest with
      | nil =>
        rw [hparts] at h
        obtain rfl := List.mem_singleton.1 h
        simpa using Ne.symm hd
      | cons part parts =>
        rw [hparts] at h
        obtain rfl | h := List.mem_cons.1 h
        · have hpart : c ∉ part := ih (hparts ▸ List.mem_cons_self ..)
          exact List.not_mem_cons_of_ne_of_not_mem (Ne.symm hd) hpart
        · exact ih (hparts ▸ List.mem_cons_of_mem _ h)

end Text

namespace Settings

variable {c t : Text} {cs segments : List Text}

/-! ## Codes between commas -/

/-- Whether a text can be listed as a code: it is not empty, holds no comma and is bare. -/
structure IsCode (t : Text) : Prop where
  some : t ≠ []
  comma : CodePoint.scalar ',' ∉ t
  bare : t.IsBare

/-- Segments in which codes are written: one segment for each code, with any blanks around it, and
blank segments wherever they please. -/
inductive Written : List Text → List Text → Prop
  | nil : Written [] []
  | blank {cs segments : List Text} {b : Text} (hb : b.IsBlank) (h : Written cs segments) :
      Written cs (b :: segments)
  | code {cs segments : List Text} {l c r : Text} (hl : l.IsBlank) (hr : r.IsBlank)
      (h : Written cs segments) : Written (c :: cs) ((l ++ c ++ r) :: segments)

theorem comma_notMem_of_isBlank (h : t.IsBlank) : CodePoint.scalar ',' ∉ t := fun hmem =>
  absurd (h _ hmem) (by decide)

/-- **The codes of segments are those written in them**, in order. -/
theorem Written.filter_strip (h : Written cs segments) (hcs : ∀ c ∈ cs, IsCode c) :
    (segments.map Text.strip).filter (!·.isEmpty) = cs := by
  induction h with
  | nil => rfl
  | blank hb _ ih => simpa [Text.strip_of_isBlank hb] using ih hcs
  | @code cs segments l c r hl hr _ ih =>
    obtain ⟨hc, hcs⟩ := List.forall_mem_cons.1 hcs
    rw [List.map_cons, Text.strip_padded hl hr hc.bare hc.some,
      List.filter_cons_of_pos (by simpa using hc.some), ih hcs]

/-- Segments with codes in them hold no comma, so they are cut apart as they were joined. -/
theorem Written.comma (h : Written cs segments) (hcs : ∀ c ∈ cs, IsCode c) :
    ∀ s ∈ segments, CodePoint.scalar ',' ∉ s := by
  induction h with
  | nil => exact List.forall_mem_nil _
  | blank hb _ ih => exact List.forall_mem_cons.2 ⟨comma_notMem_of_isBlank hb, ih hcs⟩
  | code hl hr _ ih =>
    obtain ⟨hc, hcs⟩ := List.forall_mem_cons.1 hcs
    refine List.forall_mem_cons.2 ⟨?_, ih hcs⟩
    simp [comma_notMem_of_isBlank hl, comma_notMem_of_isBlank hr, hc.comma]

/-- **Codes are read as they were written.** -/
theorem codes_join (h : Written cs segments) (hcs : ∀ c ∈ cs, IsCode c) :
    codes (Text.join "," segments) = cs := by
  by_cases hnil : segments = []
  · subst hnil
    cases h
    rfl
  · have hcut : (Text.join "," segments).splitOn ',' = segments :=
      Text.splitOn_join hnil (h.comma hcs)
    rw [codes, hcut, h.filter_strip hcs]

/-- **Every text is a writing of its codes.** -/
theorem written_codes (t : Text) : Written (codes t) (t.splitOn ',') := by
  rw [codes]
  induction t.splitOn ',' with
  | nil => exact .nil
  | cons s rest ih =>
    obtain ⟨l, r, hl, -, hr, hs⟩ := s.exists_padded
    by_cases hblank : s.strip = []
    · rw [hblank, List.append_nil] at hs
      rw [List.map_cons, hblank]
      exact .blank (hs ▸ hl.append hr) ih
    · rw [List.map_cons, List.filter_cons_of_pos (by simpa using hblank)]
      have hwritten := Written.code (c := s.strip) hl hr ih
      rwa [← hs] at hwritten

/-- What is read as a code can be listed as one. -/
theorem isCode_codes (t : Text) : ∀ c ∈ codes t, IsCode c := by
  intro c hc
  obtain ⟨hmem, hsome⟩ := List.mem_filter.1 hc
  obtain ⟨s, hs, rfl⟩ := List.mem_map.1 hmem
  obtain ⟨l, r, -, hbare, -, hpadded⟩ := s.exists_padded
  refine ⟨by simpa using hsome, fun hcomma => Text.notMem_of_mem_splitOn hs ?_, hbare⟩
  rw [hpadded]
  exact List.mem_append_left _ (List.mem_append_right _ hcomma)

/-- Codes with nothing around them are written as well. -/
theorem written_self (cs : List Text) : Written cs cs := by
  induction cs with
  | nil => exact .nil
  | cons c cs ih =>
    simpa using Written.code (c := c) Text.isBlank_nil Text.isBlank_nil ih

/-- The variable that lists codes. -/
def codesVariable : Text := "SQS_BATCH_NON_RETRYABLE_ERROR_CODES"

/-- Codes written into their variable follow the given kinds. -/
theorem kinds_of_written {env : Environment} (given : List Kind) (hcs : ∀ c ∈ cs, IsCode c)
    (h : Written cs segments) (hvariable : env.get codesVariable [] = Text.join "," segments) :
    (ofEnvironment env given).kinds = given ++ cs.map .code := by
  change given ++ (codes (env.get codesVariable [])).map Kind.code = _
  rw [hvariable, codes_join h hcs]

/-- **Codes survive their variable.**  Codes written into it follow the given kinds, in their order
and with nothing else.  And whatever stands in it, codes follow the given kinds, which are read
again from a variable that has them with commas between them. -/
theorem codes_survive (env : Environment) (given : List Kind) :
    (∀ cs segments : List Text, (∀ c ∈ cs, IsCode c) → Written cs segments →
      env.get codesVariable [] = Text.join "," segments →
      (ofEnvironment env given).kinds = given ++ cs.map .code) ∧
    ∃ cs : List Text, (ofEnvironment env given).kinds = given ++ cs.map .code ∧
      (∀ c ∈ cs, c ≠ [] ∧ CodePoint.scalar ',' ∉ c ∧ c.strip = c) ∧
      ∀ env' : Environment, env'.get codesVariable [] = Text.join "," cs →
        ∀ given', (ofEnvironment env' given').kinds = given' ++ cs.map .code := by
  have hcodes := isCode_codes (env.get codesVariable [])
  refine ⟨fun _ _ => kinds_of_written given, _, rfl, fun c hc => ?_,
    fun env' hvariable given' => ?_⟩
  · exact ⟨(hcodes c hc).some, (hcodes c hc).comma, Text.strip_of_isBare (hcodes c hc).bare⟩
  · exact kinds_of_written given' hcodes (written_self _) hvariable

namespace Sample

/-- Two codes, one with a space in it, among blank segments and blanks of several kinds. -/
def listed : List Text × List Text :=
  (["BAD RECORD", "EXPIRED"], ["", "\t BAD RECORD\u3000", "\x1c", "EXPIRED\n", ""])

end Sample

/-- A variable with blanks of several kinds and three blank segments lists two codes. -/
theorem codes_survive_sample :
    (ofEnvironment [(codesVariable, Text.join "," Sample.listed.2)] [.errors .valueError]).kinds =
      [.errors .valueError, .code "BAD RECORD", .code "EXPIRED"] ∧
    (ofEnvironment [(codesVariable, "BAD RECORD,EXPIRED")] []).kinds =
      [.code "BAD RECORD", .code "EXPIRED"] := by
  have hbad : IsCode "BAD RECORD" := ⟨by decide, by decide, by decide⟩
  have hexpired : IsCode "EXPIRED" := ⟨by decide, by decide, by decide⟩
  have hcodes : ∀ c ∈ Sample.listed.1, IsCode c :=
    List.forall_mem_cons.2 ⟨hbad, List.forall_mem_singleton.2 hexpired⟩
  have hblanks : Written Sample.listed.1 Sample.listed.2 :=
    .blank (by decide) (.code (l := "\t ") (r := "\u3000") (by decide) (by decide)
      (.blank (by decide) (.code (l := []) (r := "\n") (by decide) (by decide)
        (.blank (by decide) .nil))))
  exact ⟨(codes_survive _ [.errors .valueError]).1 _ _ hcodes hblanks rfl,
    (codes_survive _ []).1 _ _ hcodes (written_self _) rfl⟩

end Settings
end PartialBatch
