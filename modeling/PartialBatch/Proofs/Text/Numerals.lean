/-
# Decimal texts name their numbers

The decimal text of a number starts with a zero only if it is that zero, as the digits before the
point of a JSON number do (`isWhole_ofNat`), and no other digits that do so name the number
(`ofNat_digitsValue`).  So an integer in JSON has the digits of its decimal text, and either of the
two is read back:

| given as | read by | because |
| --- | --- | --- |
| digits in JSON | `Number.value` | `digitsValue_ofNat` |
| a text | `Value.integer` | no step to a plain numeral changes it (`numeral?_ofInt`) |

The induction is on the number by its last digit, which is how decimal texts are made (`ofNat_eq`).
-/

import PartialBatch.Proofs.Error.Lines
import PartialBatch.Proofs.Json.Numbers
import PartialBatch.Value.Integer
import Mathlib.Algebra.Group.Nat.Defs
import Mathlib.Data.List.Induction

namespace PartialBatch

open Json (AllDigits IsWhole)

namespace Text

variable {c : CodePoint} {ds t : Text} {k n : Nat}

/-! ## Decimal texts of natural numbers -/

/-- The last digit comes off the end. -/
theorem ofNat_eq (n : Nat) : ofNat n =
    (if n < 10 then [] else ofNat (n / 10)) ++ [CodePoint.scalar (Nat.digitChar (n % 10))] := by
  unfold ofNat
  rw [Nat.toDigits_eq_if (by decide)]
  split
  · rename_i hn
    rw [Nat.mod_eq_of_lt hn]
    rfl
  · rw [List.map_append]
    rfl

theorem digit?_digitChar (h : k < 10) : (CodePoint.scalar (Nat.digitChar k)).digit? = some k := by
  have hall : ∀ k < 10, (CodePoint.scalar (Nat.digitChar k)).digit? = some k := by decide
  exact hall k h

/-- A digit is the character of its value. -/
theorem eq_digitChar (h : c.digit? = some k) : k < 10 ∧ c = CodePoint.scalar (Nat.digitChar k) := by
  have hall : ∀ n < 58, 48 ≤ n →
      CodePoint.ofNumber n = CodePoint.scalar (Nat.digitChar (n - 48)) := by decide
  unfold CodePoint.digit? at h
  split at h
  · rename_i hnumber
    obtain rfl := Option.some.inj h
    refine ⟨by omega, ?_⟩
    rw [← hall c.number (by omega) hnumber.1, c.ofNumber_number]
  · cases h

theorem digitsValue_append (ds : Text) (c : CodePoint) :
    digitsValue (ds ++ [c]) = 10 * digitsValue ds + c.digit?.getD 0 :=
  List.foldl_append

/-- **A number is named by its decimal text.** -/
theorem digitsValue_ofNat (n : Nat) : digitsValue (ofNat n) = n := by
  induction n using Nat.strongRecOn with
  | ind n ih =>
    rw [ofNat_eq, digitsValue_append, digit?_digitChar (Nat.mod_lt _ (by decide)),
      Option.getD_some]
    split
    · rename_i hn
      rw [Nat.mod_eq_of_lt hn]
      exact Nat.zero_add n
    · rw [ih _ (by omega)]
      omega

/-- **A number is below the power of ten that its decimal text counts.** -/
theorem lt_pow_length_ofNat (n : Nat) : n < 10 ^ (ofNat n).length := by
  induction n using Nat.strongRecOn with
  | ind n ih =>
    rw [ofNat_eq, List.length_append, List.length_singleton]
    split
    · assumption
    · have hrest := ih (n / 10) (by omega)
      rw [Nat.pow_succ]
      omega

theorem ofNat_ne_nil (n : Nat) : ofNat n ≠ [] := by
  rw [ofNat_eq]
  simp

theorem allDigits_ofNat (n : Nat) : AllDigits (ofNat n) := by
  induction n using Nat.strongRecOn with
  | ind n ih =>
    have hlast := digit?_digitChar (Nat.mod_lt n (by decide : 0 < 10))
    rw [ofNat_eq]
    refine List.forall_mem_append.2 ⟨?_, List.forall_mem_singleton.2 (by rw [hlast]; rfl)⟩
    split
    · exact List.forall_mem_nil _
    · exact ih _ (by omega)

theorem head?_concat (h : ds ≠ []) : (ds ++ [c]).head? = ds.head? := by
  obtain ⟨d, ds, rfl⟩ := List.exists_cons_of_ne_nil h
  rfl

/-- Only the decimal text of zero starts with a zero. -/
theorem eq_zero_of_head? (h : (ofNat n).head? = some (CodePoint.scalar '0')) : n = 0 := by
  induction n using Nat.strongRecOn with
  | ind n ih =>
    rw [ofNat_eq] at h
    split at h
    · rename_i hn
      have hdigit := digit?_digitChar (Nat.mod_lt n (by decide : 0 < 10))
      rw [Option.some.inj h, Nat.mod_eq_of_lt hn] at hdigit
      exact (Option.some.inj hdigit).symm
    · rw [head?_concat (ofNat_ne_nil _)] at h
      have hzero := ih _ (by omega) h
      omega

/-- **A decimal text is a whole number of JSON.** -/
theorem isWhole_ofNat (n : Nat) : IsWhole (ofNat n) := by
  by_cases hn : n = 0
  · subst hn
    exact .inl rfl
  · exact .inr ⟨ofNat_ne_nil n, allDigits_ofNat n, fun h => hn (eq_zero_of_head? h)⟩

/-- **Digits are the decimal text of the number that they name**, if no zero is in front of them. -/
theorem ofNat_digitsValue (h : IsWhole ds) : ofNat (digitsValue ds) = ds := by
  obtain rfl | ⟨hsome, hdigits, hhead⟩ := h
  · rfl
  induction ds using List.reverseRecOn with
  | nil => exact absurd rfl hsome
  | append_singleton ds c ih =>
    obtain ⟨hds, hc⟩ := List.forall_mem_append.1 hdigits
    obtain ⟨k, hk⟩ := Option.isSome_iff_exists.1 (hc c (List.mem_singleton_self c))
    obtain ⟨hlt, rfl⟩ := eq_digitChar hk
    rw [digitsValue_append, hk, Option.getD_some]
    by_cases hnil : ds = []
    · subst hnil
      rw [show 10 * digitsValue [] + k = k from Nat.zero_add k, ofNat_eq, if_pos hlt,
        Nat.mod_eq_of_lt hlt]
    · rw [head?_concat hnil] at hhead
      have hofNat := ih hnil hds hhead
      have hpos : digitsValue ds ≠ 0 := fun hzero => by
        rw [hzero] at hofNat
        exact hhead (hofNat ▸ rfl)
      rw [ofNat_eq, if_neg (by omega), Nat.mul_add_div (by decide), Nat.mul_add_mod,
        Nat.div_eq_of_lt hlt, Nat.mod_eq_of_lt hlt, Nat.add_zero, hofNat]

/-! ## Numerals -/

theorem trim_eq_self {drop : CodePoint → Bool} (h : ∀ c ∈ t, drop c = false) : t.trim drop = t := by
  have hkept {u : Text} (hu : ∀ c ∈ u, drop c = false) : u.dropWhile drop = u := by
    cases u with
    | nil => rfl
    | cons c rest => exact List.dropWhile_cons_of_neg (by simp [hu c])
  rw [trim, hkept h, hkept fun c hc => h c (List.mem_reverse.1 hc), List.reverse_reverse]

theorem splitOn_of_notMem (h : c ∉ t) : t.splitOn c = [t] :=
  splitOn_join (List.cons_ne_nil t []) (List.forall_mem_singleton.2 h)

theorem notMem_of_allDigits (h : AllDigits ds) (hc : c.digit? = none) : c ∉ ds := fun hmem => by
  simpa [hc] using h c hmem

theorem isWhiteSpace_digit (h : c.digit?.isSome = true) : c.isWhiteSpace = false := by
  unfold CodePoint.digit? at h
  split at h
  · simp only [CodePoint.isWhiteSpace]
    simp
    omega
  · cases h

theorem allDigits_of_whole (h : IsWhole ds) : AllDigits ds := by
  obtain rfl | ⟨-, hdigits, -⟩ := h
  · exact List.forall_mem_singleton.2 rfl
  · exact hdigits

/-- A plain numeral is what is left of it. -/
theorem bare?_of_whole (h : IsWhole ds) : bare? ds = some ds := by
  have hdigits := allDigits_of_whole h
  have hzeros : withoutLeadingZeros? ds = some ds := by
    obtain rfl | ⟨hsome, hdigits, hhead⟩ := h
    · rfl
    · obtain ⟨d, rest, rfl⟩ := List.exists_cons_of_ne_nil hsome
      rw [withoutLeadingZeros?, if_neg fun hzero => hhead (congrArg some hzero),
        if_pos (hdigits d (List.mem_cons_self ..))]
  have hfraction : withoutZeroFraction ds = ds := by
    unfold withoutZeroFraction
    rw [splitOn_of_notMem (notMem_of_allDigits hdigits rfl)]
  have hline : CodePoint.scalar '_' ∉ ds := notMem_of_allDigits hdigits rfl
  have hungrouped : ungrouped? ds = some ds := by
    obtain ⟨d, rest, hds, -⟩ := Json.Number.exists_whole h
    unfold ungrouped?
    rw [splitOn_of_notMem hline, if_pos (by simp [hds]), List.filter_eq_self.2 fun c hc => ?_]
    simpa using fun heq : c = CodePoint.scalar '_' => hline (heq ▸ hc)
  unfold bare?
  rw [hzeros, Option.bind_some, hfraction, hungrouped]

theorem natural?_of_whole (h : IsWhole ds) (hlength : ds.length ≤ maxNumeralDigits) :
    natural? ds = some (digitsValue ds) := by
  obtain ⟨d, rest, hds, -⟩ := Json.Number.exists_whole h
  refine if_pos ⟨by simp [hds], List.all_eq_true.2 (allDigits_of_whole h), hlength, fun hhead => ?_⟩
  obtain rfl | ⟨-, -, hne⟩ := h
  · rfl
  · exact absurd hhead hne

/-- Digits are read as a plain numeral without a sign. -/
theorem plainNumeral?_of_whole (h : IsWhole ds) :
    plainNumeral? ds = (natural? ds).map fun n => (n : Int) := by
  obtain ⟨d, rest, hds, hd⟩ := Json.Number.exists_whole h
  unfold plainNumeral?
  split
  · exact absurd (List.cons.inj hds).1.symm (Json.ne_sign_of_digit hd).1
  · rfl

/-- What is read of digits, with a minus sign in front or without. -/
theorem numeral?_of_whole (h : IsWhole ds) (hlength : ds.length ≤ maxNumeralDigits) :
    numeral? ds = some (digitsValue ds : Int) ∧
      numeral? (CodePoint.scalar '-' :: ds) = some (-(digitsValue ds : Int)) := by
  have hblank (c) (hc : c ∈ ds) : c.isWhiteSpace = false :=
    isWhiteSpace_digit (allDigits_of_whole h c hc)
  have htrim : ds.trim CodePoint.isWhiteSpace = ds := trim_eq_self hblank
  have htrim' : trim CodePoint.isWhiteSpace (CodePoint.scalar '-' :: ds) =
      CodePoint.scalar '-' :: ds := trim_eq_self (List.forall_mem_cons.2 ⟨rfl, hblank⟩)
  obtain ⟨d, rest, hds, hd⟩ := Json.Number.exists_whole h
  have hsign := Json.ne_sign_of_digit hd
  constructor
  · unfold numeral?
    rw [htrim]
    split
    · exact absurd (List.cons.inj hds).1.symm hsign.1
    · exact absurd (List.cons.inj hds).1.symm hsign.2
    · rw [bare?_of_whole h, Option.bind_some, plainNumeral?_of_whole h,
        natural?_of_whole h hlength]
      rfl
  · unfold numeral?
    rw [htrim']
    change (bare? ds).bind _ = _
    rw [bare?_of_whole h, Option.bind_some, plainNumeral?, natural?_of_whole h hlength]
    rfl

/-- **The decimal text of an integer is a numeral that names it**, unless it is too long. -/
theorem numeral?_ofInt {n : Int} (h : (ofNat n.natAbs).length ≤ maxNumeralDigits) :
    numeral? (ofInt n) = some n := by
  obtain ⟨hplain, hsigned⟩ := numeral?_of_whole (isWhole_ofNat _) h
  rw [digitsValue_ofNat] at hplain hsigned
  cases n with
  | ofNat k => exact hplain
  | negSucc k => exact hsigned

theorem not_outruns (h : t.length ≤ n) : t.outruns n = false := by
  unfold outruns
  rw [Bool.and_eq_false_iff]
  exact .inr (decide_eq_false (Nat.not_lt.2 ((List.takeWhile_sublist _).length_le.trans h)))

theorem not_oversized_ofInt {n : Int} (h : (ofInt n).length ≤ maxNumeralDigits) :
    (ofInt n).oversized = false := by
  cases n with
  | ofNat k =>
    obtain ⟨d, rest, hds, hd⟩ := Json.Number.exists_whole (isWhole_ofNat k)
    change (ofNat k).oversized = false
    unfold oversized
    split
    · rename_i heq
      exact absurd (List.cons.inj (hds.symm.trans heq)).1 (Json.ne_sign_of_digit hd).1
    · exact not_outruns h
  | negSucc k =>
    have hlength : (ofNat (k + 1)).length < maxNumeralDigits := h
    exact not_outruns (Nat.le_sub_one_of_lt hlength)

/-- The sign of an integer adds to the length of its decimal text. -/
theorem length_natAbs_le (n : Int) : (ofNat n.natAbs).length ≤ (ofInt n).length := by
  cases n with
  | ofNat k => exact Nat.le_refl _
  | negSucc k => exact Nat.le_succ _

theorem isSurrogate_ofInt (n : Int) : ∀ c ∈ ofInt n, c.isSurrogate = false := by
  have hnat (k : Nat) : ∀ c ∈ ofNat k, c.isSurrogate = false := by
    intro c hc
    obtain ⟨d, -, rfl⟩ := List.mem_map.1 hc
    rfl
  cases n with
  | ofNat k => exact hnat k
  | negSucc k => exact List.forall_mem_cons.2 ⟨rfl, hnat _⟩

end Text

/-- **An integer is named by its decimal text**, unless that is too long. -/
theorem Value.integer_ofInt {n : Int} (h : (Text.ofInt n).length ≤ Text.maxNumeralDigits) :
    (Value.text (Text.ofInt n)).integer = .ok n := by
  have hsurrogate : (Text.ofInt n).any CodePoint.isSurrogate = false :=
    List.any_eq_false.2 fun c hc => by simp [Text.isSurrogate_ofInt n c hc]
  have hdigits := (Text.length_natAbs_le n).trans h
  unfold integer
  simp only [hsurrogate, Text.not_oversized_ofInt h, Text.numeral?_ofInt hdigits]
  rfl

end PartialBatch
