/-
# The lines of a report

The message of a report has one line for each failed message, and the line is the error as messages
show it (`message_lines`). The errors may quote any text and may be reports themselves, whose own
messages are of many lines, so what has to be seen is that no way of showing a value lets a line
break through:

| part of an error | shown | why it is one line |
| --- | --- | --- |
| text, key, nested report | quoted | a line break is escaped (`isLine_quoted`) |
| byte string | quoted | as above, every other byte in ASCII (`isLine_quotedBytes`) |
| number | decimal | digits, signs, points and `e` (`isLine_ofInt`, `isLine_float`) |
| list, object, arguments | joined | separators and brackets have no line break (`isLine_join`) |

A report inside a report is shown by its quoted message, so only the names of the classes that stand
at the top have to be of one line, as all common ones are.
-/

import PartialBatch.Proofs.Error.Shown

namespace PartialBatch

/-! ## Texts of one line -/

namespace Text

/-- Whether a text has no line break. -/
def IsLine (t : Text) : Prop := CodePoint.scalar '\n' ∉ t

instance (t : Text) : Decidable t.IsLine := inferInstanceAs (Decidable (_ ∉ t))

variable {s t : Text} {c : CodePoint}

@[simp] theorem isLine_nil : IsLine [] := List.not_mem_nil

@[simp] theorem isLine_cons : IsLine (c :: t) ↔ c ≠ CodePoint.scalar '\n' ∧ t.IsLine := by
  simp [IsLine, eq_comm]

@[simp] theorem isLine_append : IsLine (s ++ t) ↔ s.IsLine ∧ t.IsLine := by
  simp [IsLine, not_or]

/-- A part of a line is a line. -/
theorem IsLine.sublist (h : t.IsLine) (hst : s.Sublist t) : s.IsLine := fun hs => h (hst.subset hs)

/-- Texts of one line, joined by one, are one line. -/
theorem isLine_join {ts : List Text} (hs : s.IsLine) (hts : ∀ t ∈ ts, t.IsLine) :
    (join s ts).IsLine := by
  induction ts with
  | nil => exact isLine_nil
  | cons t rest ih =>
    obtain ⟨ht, hrest⟩ := List.forall_mem_cons.1 hts
    cases rest with
    | nil => exact ht
    | cons u rest => exact isLine_append.2 ⟨isLine_append.2 ⟨ht, hs⟩, ih hrest⟩

/-! ### Numbers -/

theorem isLine_ofNat (n : Nat) : (ofNat n).IsLine := by
  intro hmem
  obtain ⟨c, hc, hbreak⟩ := List.mem_map.1 hmem
  have hdigit := Nat.isDigit_of_mem_toDigits (by decide) (by decide) hc
  rw [CodePoint.scalar.inj hbreak] at hdigit
  exact absurd hdigit (by decide)

theorem isLine_ofInt (n : Int) : (ofInt n).IsLine := by
  cases n with
  | ofNat n => exact isLine_ofNat n
  | negSucc n => exact isLine_cons.2 ⟨by decide, isLine_ofNat _⟩

theorem isLine_hex (width n : Nat) : (hex width n).IsLine := by
  induction width generalizing n with
  | zero => exact isLine_nil
  | succ width ih =>
    have hdigit : ∀ d : Fin 16, Nat.digitChar d ≠ '\n' := by decide
    refine isLine_append.2 ⟨ih _, isLine_cons.2 ⟨?_, isLine_nil⟩⟩
    exact fun h => hdigit ⟨n % 16, Nat.mod_lt n (by decide)⟩ (CodePoint.scalar.inj h)

/-! ### Quoted texts -/

theorem isLine_ite {p : Prop} [Decidable p] (hs : p → s.IsLine) (ht : ¬p → t.IsLine) :
    IsLine (if p then s else t) := by
  split
  · exact hs ‹p›
  · exact ht ‹¬p›

/-- A code point inside a quoted text is written without a line break. -/
theorem isLine_quotedPoint {quote : Char} (hquote : quote ≠ '\n') (c : CodePoint) :
    (quotedPoint quote c).IsLine := by
  have hhex (mark : Text) (hmark : mark.IsLine) (width : Nat) :
      (mark ++ hex width c.number).IsLine :=
    isLine_append.2 ⟨hmark, isLine_hex width _⟩
  refine isLine_ite (fun hescaped => ?_) fun _ => isLine_ite (fun _ => by decide) fun hbreak => ?_
  · refine isLine_cons.2 ⟨by decide, isLine_cons.2 ⟨?_, isLine_nil⟩⟩
    rintro rfl
    rcases hescaped with h | h
    · exact absurd h (by decide)
    · exact hquote (CodePoint.scalar.inj h).symm
  · refine isLine_ite (fun _ => by decide) fun _ => isLine_ite (fun _ => by decide) fun _ => ?_
    refine isLine_ite (fun _ => isLine_cons.2 ⟨hbreak, isLine_nil⟩) fun _ => ?_
    exact isLine_ite (fun _ => hhex _ (by decide) _) fun _ =>
      isLine_ite (fun _ => hhex _ (by decide) _) fun _ => hhex _ (by decide) _

theorem quoteOf_ne_break (t : Text) : quoteOf t ≠ '\n' := by
  unfold quoteOf
  split <;> decide

/-- What is written between quotes is one line if each of its parts is. -/
theorem isLine_between {point : CodePoint → Text} {quote : Char} (hquote : quote ≠ '\n')
    (hpoint : ∀ c, (point c).IsLine) (t : Text) :
    IsLine ((CodePoint.scalar quote :: t.flatMap point) ++ [CodePoint.scalar quote]) := by
  have hscalar : CodePoint.scalar quote ≠ CodePoint.scalar '\n' :=
    fun h => hquote (CodePoint.scalar.inj h)
  have hparts : IsLine (t.flatMap point) := fun hmem =>
    have ⟨c, _, hc⟩ := List.mem_flatMap.1 hmem
    hpoint c hc
  exact isLine_append.2
    ⟨isLine_cons.2 ⟨hscalar, hparts⟩, isLine_cons.2 ⟨hscalar, isLine_nil⟩⟩

/-- **A quoted text is one line**, whatever it quotes. -/
theorem isLine_quoted (t : Text) : t.quoted.IsLine :=
  isLine_between (quoteOf_ne_break t) (isLine_quotedPoint (quoteOf_ne_break t)) t

theorem isLine_quotedBytes (bytes : List UInt8) : (quotedBytes bytes).IsLine := by
  refine isLine_cons.2 ⟨by decide, isLine_between (quoteOf_ne_break _) (fun c => ?_) _⟩
  exact isLine_ite (fun _ => isLine_quotedPoint (quoteOf_ne_break _) c) fun _ =>
    isLine_append.2 ⟨by decide, isLine_hex _ _⟩

/-! ### Lines put together and taken apart -/

theorem splitOn_eq (c : CodePoint) (t : Text) : t.splitOn c = List.splitOn c t := by
  induction t with
  | nil => rfl
  | cons d rest ih =>
    rw [List.splitOn_cons_eq_if_modifyHead, splitOn, ih]
    by_cases hd : d = c
    · simp [hd]
    · have hsome : List.splitOn c rest ≠ [] := List.splitOn_ne_nil c rest
      cases hparts : List.splitOn c rest with
      | nil => exact absurd hparts hsome
      | cons part parts => simp [hd]

theorem join_eq (c : CodePoint) (ts : List Text) : join [c] ts = [c].intercalate ts := by
  induction ts with
  | nil => rfl
  | cons t rest ih =>
    cases rest with
    | nil => simp [join]
    | cons u rest =>
      rw [List.intercalate_cons_cons, ← ih]
      rfl

/-- Joined parts come apart again where they were joined, if none of them holds the separator. -/
theorem splitOn_join {c : CodePoint} {ts : List Text} (hsome : ts ≠ []) (hts : ∀ t ∈ ts, c ∉ t) :
    (join [c] ts).splitOn c = ts := by
  rw [splitOn_eq, join_eq]
  exact List.splitOn_intercalate c hts hsome

end Text

namespace Binary64

/-- A decimal is written with digits, a point, signs and an `e`. -/
theorem isLine_decimal (x : Decimal) : x.text.IsLine := by
  have hzeros (n : Nat) : Text.IsLine (List.replicate n (CodePoint.scalar '0')) := fun h =>
    absurd (List.eq_of_mem_replicate h) (by decide)
  have hdigits := Text.isLine_ofNat x.digits
  have htake (n : Nat) : Text.IsLine ((Text.ofNat x.digits).take n) :=
    hdigits.sublist (List.take_sublist n _)
  have hdrop (n : Nat) : Text.IsLine ((Text.ofNat x.digits).drop n) :=
    hdigits.sublist (List.drop_sublist n _)
  refine Text.isLine_ite (fun _ => ?_) fun _ => ?_
  · refine Text.isLine_ite (fun _ => ?_) fun _ => Text.isLine_ite (fun _ => ?_) fun _ => ?_
    · exact Text.isLine_append.2 ⟨Text.isLine_append.2 ⟨by decide, hzeros _⟩, hdigits⟩
    · exact Text.isLine_append.2 ⟨Text.isLine_append.2 ⟨hdigits, hzeros _⟩, by decide⟩
    · exact Text.isLine_append.2 ⟨Text.isLine_append.2 ⟨htake _, by decide⟩, hdrop _⟩
  · have hfraction :
        Text.IsLine (if (Text.ofNat x.digits).length ≤ 1 then []
          else "." ++ (Text.ofNat x.digits).drop 1) :=
      Text.isLine_ite (fun _ => Text.isLine_nil) fun _ => Text.isLine_append.2 ⟨by decide, hdrop 1⟩
    simp only [Text.isLine_append]
    exact ⟨⟨⟨⟨htake 1, hfraction⟩, Text.isLine_ite (fun _ => by decide) fun _ => by decide⟩,
      hzeros _⟩, Text.isLine_ofNat _⟩

theorem isLine_float (x : Binary64) : x.text.IsLine := by
  cases x with
  | nan => decide
  | infinite negative => cases negative <;> decide
  | finite negative m e =>
    have hsize : Text.IsLine (if m = 0 then "0.0" else (shortest m e).text) :=
      Text.isLine_ite (fun _ => by decide) fun _ => isLine_decimal _
    exact Text.isLine_ite (fun _ => Text.isLine_cons.2 ⟨by decide, hsize⟩) fun _ => hsize

end Binary64

/-! ## Values and errors -/

namespace Value

mutual

/-- **A value is shown in one line**, if it is shown. -/
theorem isLine_of_shownWithin :
    (v : Value) → ∀ {levels t}, v.shownWithin levels = .ok t → Text.IsLine t
  | null, _, _, h | bool true, _, _, h | bool false, _, _, h => by
    obtain rfl := Except.ok.inj h
    decide
  | int n, _, _, h => by
    rw [shownWithin] at h
    split at h
    · obtain rfl := Except.ok.inj h
      exact Text.isLine_ofInt n
    · cases h
  | float x, _, _, h => Except.ok.inj h ▸ x.isLine_float
  | text t, _, _, h => Except.ok.inj h ▸ t.isLine_quoted
  | bytes b, _, _, h => Except.ok.inj h ▸ Text.isLine_quotedBytes b
  | list vs, _, _, h => by
    rw [shownWithin] at h
    split at h
    · cases h
    obtain ⟨ts, hts, hjoin⟩ := bind_eq_ok.1 h
    obtain rfl := Except.ok.inj hjoin
    simp only [Text.isLine_append]
    exact ⟨⟨by decide, Text.isLine_join (by decide) (isLine_of_shownList vs hts)⟩, by decide⟩
  | object es, _, _, h => by
    rw [shownWithin] at h
    split at h
    · cases h
    obtain ⟨ts, hts, hjoin⟩ := bind_eq_ok.1 h
    obtain rfl := Except.ok.inj hjoin
    simp only [Text.isLine_append]
    exact ⟨⟨by decide, Text.isLine_join (by decide) (isLine_of_shownEntries es hts)⟩, by decide⟩

theorem isLine_of_shownList :
    (vs : List Value) → ∀ {levels ts}, shownList levels vs = .ok ts → ∀ t ∈ ts, t.IsLine
  | [], _, _, h => Except.ok.inj h ▸ List.forall_mem_nil _
  | v :: vs, _, _, h => by
    rw [shownList] at h
    obtain ⟨t, ts, ht, hts, rfl⟩ := cons_eq_ok.1 h
    exact List.forall_mem_cons.2 ⟨isLine_of_shownWithin v ht, isLine_of_shownList vs hts⟩

theorem isLine_of_shownEntries :
    (es : List (Text × Value)) →
      ∀ {levels ts}, shownEntries levels es = .ok ts → ∀ t ∈ ts, t.IsLine
  | [], _, _, h => Except.ok.inj h ▸ List.forall_mem_nil _
  | (k, v) :: es, _, _, h => by
    rw [shownEntries] at h
    obtain ⟨t, ht, hrest⟩ := bind_eq_ok.1 h
    obtain ⟨ts, hts, hcons⟩ := bind_eq_ok.1 hrest
    obtain rfl := Except.ok.inj hcons
    refine List.forall_mem_cons.2 ⟨?_, isLine_of_shownEntries es hts⟩
    simp only [Text.isLine_append]
    exact ⟨⟨k.isLine_quoted, by decide⟩, isLine_of_shownWithin v ht⟩

end

end Value

namespace Error

variable {errors : List Error} {failed : List Message} {values : List Value} {e : Error}
variable {failures : List (Message × Error)} {t : Text} {ts : List Text}

theorem isLine_of_showing {v : Value} (h : showing v = .ok t) : t.IsLine := by
  unfold showing at h
  cases hshown : v.shown with
  | error f => rw [hshown] at h; cases h
  | ok u =>
    rw [hshown] at h
    exact Except.ok.inj h ▸ Value.isLine_of_shownWithin v hshown

/-- Values that are shown between separators of one line are shown in one line. -/
theorem isLine_of_showingAll {separator : Text} {vs : List Value} (hseparator : separator.IsLine)
    (h : showingAll separator vs = .ok t) : t.IsLine := by
  obtain ⟨ts, hts, hjoin⟩ := bind_eq_ok.1 h
  obtain rfl := Except.ok.inj hjoin
  refine Text.isLine_join hseparator fun u hu => ?_
  have hmem : Except.ok u ∈ vs.map showing := mapM_eq_ok.1 hts ▸ List.mem_map_of_mem hu
  obtain ⟨v, -, hv⟩ := List.mem_map.1 hmem
  exact isLine_of_showing hv

/-- **An error is shown in one line** if the name of its class is one. No more is asked of the
errors inside a report, since that shows their lines quoted. -/
theorem isLine_of_shown (hname : Text.IsLine e.cls.name) (h : e.shown = .ok t) : t.IsLine := by
  have hcall {u : Text} (hu : u.IsLine) : Text.IsLine (e.cls.name ++ "(" ++ u ++ ")") := by
    simp only [Text.isLine_append]
    exact ⟨⟨⟨hname, by decide⟩, hu⟩, by decide⟩
  cases e with
  | ordinary cls args files code | worded cls args code words =>
    rw [shown] at h
    obtain ⟨u, hu, hpure⟩ := bind_eq_ok.1 h
    obtain rfl := Except.ok.inj hpure
    exact hcall (isLine_of_showingAll (by decide) hu)
  | unworded cls =>
    rw [shown] at h
    obtain rfl := Except.ok.inj h
    exact Text.isLine_append.2 ⟨hname, by decide⟩
  | coded parts =>
    rw [shown] at h
    obtain ⟨u, hu, hpure⟩ := bind_eq_ok.1 h
    obtain rfl := Except.ok.inj hpure
    exact hcall (isLine_of_showing hu)
  | report failures values code =>
    rw [shown] at h
    obtain ⟨ts, -, hpure⟩ := bind_eq_ok.1 h
    obtain rfl := Except.ok.inj hpure
    exact hcall (Text.isLine_quoted _)

/-- **The message of a report has the shown errors for its lines.** -/
theorem splitOn_lines (hsome : failures ≠ []) (hnames : ∀ f ∈ failures, Text.IsLine f.2.cls.name)
    (h : lines failures = .ok t) :
    failures.map (fun f => f.2.shown) = (t.splitOn (CodePoint.scalar '\n')).map .ok := by
  obtain ⟨ts, hts, hjoin⟩ := bind_eq_ok.1 h
  obtain rfl := Except.ok.inj hjoin
  have hshown := shownAll_eq_ok.1 hts
  have hlines : ∀ u ∈ ts, u.IsLine := fun u hu => by
    have hmem : Except.ok u ∈ failures.map fun f => f.2.shown := hshown ▸ List.mem_map_of_mem hu
    obtain ⟨f, hf, hfu⟩ := List.mem_map.1 hmem
    exact isLine_of_shown (hnames f hf) hfu
  have hts : ts ≠ [] := fun hnil => hsome (by simpa [hnil] using hshown)
  rw [hshown, show Text.join "\n" ts = Text.join [CodePoint.scalar '\n'] ts from rfl,
    Text.splitOn_join hts hlines]

/-- A report is made from as many errors as failed messages, if all can be shown, and pairs them in
order. -/
theorem makeReport_eq_ok :
    makeReport errors failed values = .ok e ↔ errors.length = failed.length ∧
      (∃ t, lines (failed.zip errors) = .ok t) ∧ e = reported (failed.zip errors) values := by
  unfold makeReport
  split
  · rename_i h
    simp [h, reporting_eq_ok]
  · rename_i h
    simp [h]

/-- **The message of a report is one line per failure.** Split at line breaks it gives one line for
each failed message, in order, and each line is the error of its message as messages show it,
whatever that error quotes. -/
theorem message_lines (h : makeReport errors failed values = .ok e) (hsome : failed ≠ [])
    (hnames : ∀ error ∈ errors, Text.IsLine error.cls.name) :
    ∃ failures message, e = reported failures values ∧ failures.map Prod.fst = failed ∧
      failures.map Prod.snd = errors ∧ lines failures = .ok message ∧
      e.text = .ok ("[BATCH_PROCESSING] " ++ message) ∧
      (message.splitOn (CodePoint.scalar '\n')).length = failed.length ∧
      errors.map shown = (message.splitOn (CodePoint.scalar '\n')).map .ok ∧
      ∀ (i : Nat) (m : Message) (error : Error), failures[i]? = some (m, error) →
        ∃ line, (message.splitOn (CodePoint.scalar '\n'))[i]? = some line ∧
          error.shown = .ok line := by
  obtain ⟨hlength, ⟨message, hmessage⟩, rfl⟩ := makeReport_eq_ok.1 h
  have hfailed : (failed.zip errors).map Prod.fst = failed :=
    List.map_fst_zip (Nat.le_of_eq hlength.symm)
  have herrors : (failed.zip errors).map Prod.snd = errors :=
    List.map_snd_zip (Nat.le_of_eq hlength)
  have hpairs : failed.zip errors ≠ [] := fun hnil => hsome (by rw [← hfailed, hnil, List.map_nil])
  have hlines := splitOn_lines hpairs (fun f hf => hnames f.2 (herrors ▸ List.mem_map_of_mem hf))
    hmessage
  refine ⟨_, message, rfl, hfailed, herrors, hmessage, ?_, ?_, ?_, fun i m error hi => ?_⟩
  · change (lines (failed.zip errors) >>= fun t => tagged _ (.text t)) = _
    rw [hmessage]
    rfl
  · have hcount := congrArg List.length hlines
    rw [List.length_map, List.length_map] at hcount
    rw [← hcount, ← hfailed, List.length_map, hfailed]
  · rw [← hlines, ← herrors, List.map_map, herrors]
    rfl
  · have hi' := congrArg (·[i]?) hlines
    rw [List.getElem?_map, List.getElem?_map, hi] at hi'
    obtain ⟨line, hline, hshown⟩ := Option.map_eq_some_iff.1 hi'.symm
    exact ⟨line, hline, hshown.symm⟩

namespace Sample

/-- A message. -/
def message (id : Text) : Message :=
  ⟨id, "rh", "\x7b\x7d", "arn:aws:sqs:eu:1:orders", [], [], none, none⟩

/-- Errors whose texts hold line breaks, both quotes and backslashes: one on its own, and two inside
a report. -/
def rugged : List Error :=
  [.saying .valueError "a\nb\\",
    .reported [(message "c", .saying .keyError "\x27\n\""),
      (message "d", .ordinary .osError [.int 5, .list [.text "\r\n"]] [] none)] []]

/-- The same errors as messages show them. -/
def shownRugged : List Text :=
  ["ValueError(\x27a\\nb\\\\\x27)",
    "BatchProcessingError(\x27KeyError(\\\x27\\\\\\\x27\\\\n\"\\\x27)" ++
      "\\nOSError(5, [\\\x27\\\\r\\\\n\\\x27])\x27)"]

/-- Two messages that failed with them. -/
def broken : List Message := [message "a", message "b"]

end Sample

/-- The two lines of a report on errors that hold line breaks. -/
theorem message_lines_sample :
    makeReport Sample.rugged Sample.broken [] =
        .ok (reported (Sample.broken.zip Sample.rugged) []) ∧
      Sample.broken ≠ [] ∧ (∀ error ∈ Sample.rugged, Text.IsLine error.cls.name) ∧
      ∃ failures message, reported (Sample.broken.zip Sample.rugged) [] = reported failures [] ∧
        failures.map Prod.fst = Sample.broken ∧ failures.map Prod.snd = Sample.rugged ∧
        lines failures = .ok message ∧
        message.splitOn (CodePoint.scalar '\n') = Sample.shownRugged := by
  have hmade : makeReport Sample.rugged Sample.broken [] =
      .ok (reported (Sample.broken.zip Sample.rugged) []) := by decide +kernel
  have hnames : ∀ error ∈ Sample.rugged, Text.IsLine error.cls.name := by decide
  have hshown : Sample.rugged.map shown = Sample.shownRugged.map .ok := by decide +kernel
  obtain ⟨failures, message, he, hfailed, herrors, hmessage, -, -, hlines, -⟩ :=
    message_lines hmade (by decide) hnames
  have hsame := List.map_injective_iff.2 (fun _ _ => Except.ok.inj) (hlines.symm.trans hshown)
  exact ⟨hmade, by decide, hnames, failures, message, he, hfailed, herrors, hmessage, hsame⟩

end Error
end PartialBatch
