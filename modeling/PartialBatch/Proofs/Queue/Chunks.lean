/-
# Cutting a list into chunks

What is asked of chunks can be said without the way in which they are made: they are the list, in
order, each has something in it, and all but perhaps the last have the size (`Chunked`).

| asked | of `chunks n xs` |
| --- | --- |
| the elements of the list, in order | `flatten_chunks` |
| something in each, at most `n` elements | `length_le_of_mem_chunks` |
| `n` elements in each but the last | `length_eq_of_mem_dropLast_chunks` |

Only one cut is as asked (`Chunked.eq_chunks`): chunks that are full are found again in front of
whatever follows them (`chunks_flatten_append`), so all but the last are, and the last is what
remains.  The same lemma joins the chunks of two lists if those of the first are all full
(`chunks_append`).  How many chunks there are follows from the length of the list (`length_chunks`).

A size that is a whole number cuts every list like that, however large it is, and a size below one
cuts none (`chunking_unique`).
-/

import PartialBatch.Batch.Chunk
import Mathlib.Algebra.BigOperators.Ring.List
import Mathlib.Algebra.Order.Floor.Div

namespace PartialBatch

/-! ## Pieces of a list -/

/-- Whether lists are another one cut into pieces of `n` elements, with a last one of the rest. -/
structure Chunked {α : Type} (n : Nat) (xs : List α) (pieces : List (List α)) : Prop where
  /-- The pieces hold the elements of the list, in order. -/
  flatten_eq : pieces.flatten = xs
  /-- Every piece has an element. -/
  ne_nil : ∀ piece ∈ pieces, piece ≠ []
  /-- All but the last have the size. -/
  full : ∀ piece ∈ pieces.dropLast, piece.length = n
  /-- The last one has that size or is shorter. -/
  last_le : ∀ piece ∈ pieces.getLast?, piece.length ≤ n

section Pieces

variable {α : Type} {n : Nat} {xs ys zs : List α} {pieces yss : List (List α)}

/-- The pieces of a list hold its elements in order. -/
theorem flatten_chunks (n : Nat) (xs : List α) : (chunks n xs).flatten = xs := by
  induction xs using chunks.induct n with
  | case1 => rw [chunks]; rfl
  | case2 x rest ih =>
    rw [chunks, List.flatten_cons, ih, List.cons_append, List.take_append_drop]

/-- The pieces of a list have elements, and as many as the size says at most. -/
theorem length_le_of_mem_chunks (h : ys ∈ chunks n xs) :
    ys ≠ [] ∧ ys.length ≤ n - 1 + 1 := by
  induction xs using chunks.induct n with
  | case1 =>
    rw [chunks] at h
    simp at h
  | case2 x rest ih =>
    rw [chunks] at h
    rcases List.mem_cons.1 h with rfl | h
    · refine ⟨List.cons_ne_nil _ _, ?_⟩
      rw [List.length_cons, List.length_take]
      omega
    · exact ih h

/-- All pieces of a list but the last are full. -/
theorem length_eq_of_mem_dropLast_chunks (h : ys ∈ (chunks n xs).dropLast) :
    ys.length = n - 1 + 1 := by
  induction xs using chunks.induct n with
  | case1 =>
    rw [chunks] at h
    simp at h
  | case2 x rest ih =>
    rw [chunks] at h
    -- something remains for other pieces only if the first is full
    by_cases hmore : chunks n (rest.drop (n - 1)) = []
    · rw [hmore] at h
      simp at h
    · rw [List.dropLast_cons_of_ne_nil hmore] at h
      rcases List.mem_cons.1 h with rfl | h
      · have hrest : rest.drop (n - 1) ≠ [] := by
          intro hnil
          rw [hnil, chunks] at hmore
          exact hmore rfl
        rw [Ne, List.drop_eq_nil_iff] at hrest
        rw [List.length_cons, List.length_take]
        omega
      · exact ih h

/-- No piece of a list is longer than the first. -/
theorem length_le_of_chunks_eq_cons (h : chunks n xs = ys :: yss) (hzs : zs ∈ yss) :
    zs.length ≤ ys.length := by
  have hfirst : ys ∈ (chunks n xs).dropLast := by
    rw [h, List.dropLast_cons_of_ne_nil (List.ne_nil_of_mem hzs)]
    exact List.mem_cons_self ..
  rw [length_eq_of_mem_dropLast_chunks hfirst]
  exact (length_le_of_mem_chunks (h ▸ List.mem_cons_of_mem _ hzs)).2

/-- **A list has as many pieces as it takes**, and no more. -/
theorem length_chunks (hn : 0 < n) (xs : List α) :
    (chunks n xs).length = (xs.length + n - 1) / n := by
  induction xs using chunks.induct n with
  | case1 =>
    rw [chunks, List.length_nil, List.length_nil, Nat.zero_add, Nat.div_eq_of_lt (by omega)]
  | case2 x rest ih =>
    rw [chunks, List.length_cons, ih, List.length_drop, List.length_cons]
    by_cases hshort : rest.length ≤ n - 1
    · have hnone : rest.length - (n - 1) = 0 := by omega
      rw [hnone, Nat.zero_add, Nat.div_eq_of_lt (by omega), Nat.zero_add]
      symm
      exact Nat.div_eq_of_lt_le (by omega) (by omega)
    · have hmore : rest.length + 1 + n - 1 = (rest.length - (n - 1) + n - 1) + n := by omega
      rw [hmore, Nat.add_div_right _ hn]

theorem chunked_chunks (hn : 0 < n) (xs : List α) : Chunked n xs (chunks n xs) where
  flatten_eq := flatten_chunks n xs
  ne_nil _ h := (length_le_of_mem_chunks h).1
  full _ h := by
    have hlength := length_eq_of_mem_dropLast_chunks h
    omega
  last_le _ h := by
    have hlength := (length_le_of_mem_chunks (List.mem_of_getLast? h)).2
    omega

/-! ## Only one cut -/

/-- What fits into one piece is one. -/
theorem chunks_of_length_le (hxs : xs ≠ []) (h : xs.length ≤ n) : chunks n xs = [xs] := by
  obtain ⟨x, rest, rfl⟩ := List.exists_cons_of_ne_nil hxs
  rw [List.length_cons] at h
  have htake : rest.take (n - 1) = rest := List.take_of_length_le (by omega)
  have hdrop : rest.drop (n - 1) = [] := List.drop_of_length_le (by omega)
  rw [chunks, htake, hdrop, chunks]

/-- A full piece comes off the front. -/
theorem chunks_append_of_length_eq (hn : 0 < n) (h : xs.length = n) (ys : List α) :
    chunks n (xs ++ ys) = xs :: chunks n ys := by
  cases xs with
  | nil => exact absurd h hn.ne
  | cons x rest =>
    have hrest : rest.length = n - 1 := by
      rw [← h, List.length_cons, Nat.add_sub_cancel]
    rw [List.cons_append, chunks, List.take_left' hrest, List.drop_left' hrest]

/-- **Full pieces are found again**, whatever follows them. -/
theorem chunks_flatten_append (hn : 0 < n) (h : ∀ piece ∈ pieces, piece.length = n)
    (ys : List α) : chunks n (pieces.flatten ++ ys) = pieces ++ chunks n ys := by
  induction pieces with
  | nil => rfl
  | cons piece pieces ih =>
    obtain ⟨hpiece, hpieces⟩ := List.forall_mem_cons.1 h
    rw [List.flatten_cons, List.append_assoc, chunks_append_of_length_eq hn hpiece, ih hpieces,
      List.cons_append]

/-- Pieces are full ones and a last one of the rest, unless there is nothing to cut. -/
theorem Chunked.eq_nil_or_append (h : Chunked n xs pieces) : pieces = [] ∧ xs = [] ∨
    ∃ init last, pieces = init ++ [last] ∧ xs = init.flatten ++ last ∧
      (∀ piece ∈ init, piece.length = n) ∧ last ≠ [] ∧ last.length ≤ n := by
  obtain ⟨rfl, hne, hfull, hlast⟩ := h
  obtain rfl | ⟨init, last, rfl⟩ := List.eq_nil_or_concat' pieces
  · exact .inl ⟨rfl, rfl⟩
  · rw [List.dropLast_concat] at hfull
    exact .inr ⟨init, last, rfl, by simp, hfull, hne last (by simp), hlast last (by simp)⟩

/-- **A list is cut in one way only.** -/
theorem Chunked.eq_chunks (hn : 0 < n) (h : Chunked n xs pieces) : pieces = chunks n xs := by
  obtain ⟨rfl, rfl⟩ | ⟨init, last, rfl, rfl, hfull, hne, hlast⟩ := h.eq_nil_or_append
  · rw [chunks]
  · rw [chunks_flatten_append hn hfull, chunks_of_length_le hne hlast]

/-- If the size divides the length of the list, all pieces are full. -/
theorem Chunked.length_eq_of_dvd (h : Chunked n xs pieces) (hdvd : n ∣ xs.length) :
    ∀ piece ∈ pieces, piece.length = n := by
  obtain ⟨rfl, rfl⟩ | ⟨init, last, rfl, rfl, hfull, hne, hlast⟩ := h.eq_nil_or_append
  · exact List.forall_mem_nil _
  · have hinit : n ∣ init.flatten.length := by
      rw [List.length_flatten]
      refine List.dvd_sum fun k hk => ?_
      obtain ⟨piece, hpiece, rfl⟩ := List.mem_map.1 hk
      rw [hfull piece hpiece]
    rw [List.length_append, Nat.dvd_add_right hinit] at hdvd
    have hle : n ≤ last.length := Nat.le_of_dvd (List.length_pos_of_ne_nil hne) hdvd
    exact List.forall_mem_append.2 ⟨hfull, List.forall_mem_singleton.2 (hlast.antisymm hle)⟩

/-- **The pieces of two lists are those of one behind the other**, if the first leaves no rest. -/
theorem chunks_append (hn : 0 < n) (hdvd : n ∣ xs.length) (ys : List α) :
    chunks n (xs ++ ys) = chunks n xs ++ chunks n ys := by
  have hfull := (chunked_chunks hn xs).length_eq_of_dvd hdvd
  calc chunks n (xs ++ ys)
      = chunks n ((chunks n xs).flatten ++ ys) := by rw [flatten_chunks]
    _ = chunks n xs ++ chunks n ys := chunks_flatten_append hn hfull ys

end Pieces

/-! ## Sizes -/

namespace Size

variable {size : Size} {n : Nat}

/-- The number that a size is, if it is a whole number. -/
def whole? : Size → Option Nat
  | .int n => some n.toNat
  | .bool b => some b.toNat
  | .float _ => none

/-- A whole number of one or more is the length of its chunks. -/
theorem stride_of_whole (h : size.whole? = some n) (hn : 0 < n) : size.stride = .ok n := by
  cases size with
  | float x => cases h
  | bool b =>
    obtain rfl := Option.some.inj h
    cases b with
    | false => exact absurd hn (Nat.lt_irrefl 0)
    | true => rfl
  | int k =>
    obtain rfl := Option.some.inj h
    have hbelow : (int k).below 1 = false := by
      simp only [below, atLeast, Bool.not_eq_false', decide_eq_true_eq]
      omega
    rw [stride, if_neg (by simp [hbelow])]

/-- A number is told, unless it has too many digits. -/
theorem told_or_digits (size : Size) : (∃ t, Error.telling size.value = .ok t) ∨
    Error.telling size.value = .error (.ofShowFault .digits) := by
  cases size with
  | bool b => cases b <;> exact .inl ⟨_, rfl⟩
  | float x => exact .inl ⟨_, rfl⟩
  | int k =>
    by_cases hlength : (Text.ofNat k.natAbs).length ≤ Text.maxDigits
    · refine .inl ⟨Text.ofInt k, ?_⟩
      simp [Error.telling, value, Value.plain, Value.shown, Value.shownWithin, hlength,
        Except.mapError]
    · refine .inr ?_
      simp [Error.telling, value, Value.plain, Value.shown, Value.shownWithin, hlength,
        Except.mapError]

/-- There are no chunks of a size below one. -/
theorem stride_of_below (h : size.below 1 = true) :
    ∃ text, size.stride = .error (.saying .valueError text) := by
  unfold stride
  rw [if_pos h]
  obtain ⟨t, htold⟩ | hdigits := size.told_or_digits
  · rw [htold]
    exact ⟨_, rfl⟩
  · rw [hdigits]
    exact ⟨_, rfl⟩

end Size

section Chunks

variable {α : Type} {xs : List α} {size : Size} {n : Nat}

theorem chunk_of_stride (h : size.stride = .ok n) (xs : List α) :
    chunk xs size = .ok (chunks n xs) := by
  rw [chunk, h]
  rfl

/-- The chunks of a list hold its elements in order. -/
theorem flatten_chunk {xss : List (List α)} (h : chunk xs size = .ok xss) : xss.flatten = xs := by
  cases hn : size.stride with
  | error e =>
    rw [chunk, hn] at h
    cases h
  | ok n =>
    rw [chunk_of_stride hn] at h
    obtain rfl := Except.ok.inj h
    exact flatten_chunks n xs

/-- **Chunks are the one exact partition.**  A list has chunks of every size that is a whole number of
one or more: they are the list cut into pieces of that size, as many as it takes.  Nothing else is the
list cut that way, so joined chunks are cut where they were, and the chunks of a list that leaves no
rest stand before those of what follows it.  A size below one is refused for every list. -/
theorem chunking_unique (xs : List α) (size : Size) :
    (∀ n, size.whole? = some n → 0 < n → ∃ pieces, chunk xs size = .ok pieces ∧
      Chunked n xs pieces ∧ pieces.length = xs.length ⌈/⌉ n ∧
      (∀ others, Chunked n xs others → others = pieces) ∧
      chunk pieces.flatten size = .ok pieces ∧
      ∀ ys, n ∣ xs.length → ∃ more, chunk ys size = .ok more ∧
        chunk (xs ++ ys) size = .ok (pieces ++ more)) ∧
    (size.below 1 = true → ∃ text, chunk xs size = .error (.saying .valueError text)) := by
  constructor
  · intro n hwhole hn
    have hchunk := chunk_of_stride (α := α) (Size.stride_of_whole hwhole hn)
    refine ⟨chunks n xs, hchunk xs, chunked_chunks hn xs, length_chunks hn xs,
      fun others h => h.eq_chunks hn, ?_, fun ys hdvd => ⟨chunks n ys, hchunk ys, ?_⟩⟩
    · rw [flatten_chunks, hchunk]
    · rw [hchunk, chunks_append hn hdvd]
  · intro hbelow
    obtain ⟨text, htext⟩ := Size.stride_of_below hbelow
    refine ⟨text, ?_⟩
    rw [chunk, htext]
    rfl

end Chunks

/-- Seven elements in threes, a size beyond any list, two lists of which the first leaves no rest,
and a size that is refused. -/
theorem chunking_unique_sample :
    Chunked 3 [1, 2, 3, 4, 5, 6, 7] [[1, 2, 3], [4, 5, 6], [7]] ∧
    chunk [1, 2, 3, 4, 5, 6, 7] 3 = .ok [[1, 2, 3], [4, 5, 6], [7]] ∧
    Chunked (10 ^ 30) [1, 2] [[1, 2]] ∧
    chunk [1, 2] (.int (10 ^ 30)) = .ok [[1, 2]] ∧
    (∃ pieces more, chunk [1, 2, 3, 4] 2 = .ok pieces ∧ chunk [5] 2 = .ok more ∧
      chunk [1, 2, 3, 4, 5] 2 = .ok (pieces ++ more)) ∧
    (Size.int (-1)).below 1 = true ∧
    ∃ text, chunk [1] (.int (-1)) = .error (.saying .valueError text) := by
  have hthrees : Chunked 3 [1, 2, 3, 4, 5, 6, 7] [[1, 2, 3], [4, 5, 6], [7]] :=
    ⟨rfl, by decide, by decide, by decide⟩
  have hone : Chunked (10 ^ 30) [1, 2] [[1, 2]] := ⟨rfl, by decide, by decide, by decide⟩
  obtain ⟨pieces, hpieces, -, -, hunique, -, -⟩ :=
    (chunking_unique [1, 2, 3, 4, 5, 6, 7] 3).1 3 rfl (by decide)
  obtain ⟨pieces', hpieces', -, -, hunique', -, -⟩ :=
    (chunking_unique [1, 2] (.int (10 ^ 30))).1 (10 ^ 30) rfl (by decide)
  obtain ⟨twos, htwos, -, -, -, -, hjoin⟩ := (chunking_unique [1, 2, 3, 4] 2).1 2 rfl (by decide)
  obtain ⟨more, hmore, hjoined⟩ := hjoin [5] (by decide)
  have hbelow : (Size.int (-1)).below 1 = true := by decide
  exact ⟨hthrees, hunique _ hthrees ▸ hpieces, hone, hunique' _ hone ▸ hpieces',
    ⟨twos, more, htwos, hmore, hjoined⟩, hbelow, (chunking_unique [1] _).2 hbelow⟩

end PartialBatch
