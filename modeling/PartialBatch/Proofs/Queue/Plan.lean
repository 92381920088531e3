/-
# Plans of requests

Deleting and sending go through a list of requests that is fixed before the first is made. A
plan is that list, with an error in the place of a request that is refused before the client is
used. It is followed up to the first error:

| next in the plan | answer | then |
| --- | --- | --- |
| nothing | | the plan is done |
| an error | | the plan ends in it, with no call |
| a request | an error, or one that cannot be read | the plan ends in it, after the call |
| a request | one that can be read | the plan goes on |

So the calls are the beginning of the plan (`Issued.requests_prefix`), and all of it if it ends
without an error (`Issued.requests_eq`); how far it gets depends on the answers alone
(`Issued.unique`). `chunkPlan` is the plan for entries in chunks of a size; if it can be done, its
requests hold exactly the entries, in order (`flatten_of_chunkPlan`), and if one of them is refused,
that is the first (`eq_nil_of_refused`), since no chunk is longer than the first one.
-/

import PartialBatch.Proofs.Queue.Calls
import PartialBatch.Proofs.Queue.Chunks

namespace PartialBatch

/-- Requests to make one after another; an error stands for one that is refused. -/
abbrev Plan := List (Except Error Request)

/-- How far a plan gets: the calls made, what was read from their answers, and the error that
ended it, if one did. -/
inductive Issued {β : Type} (read : Value → Except Error β) :
    Plan → List Call → List β → Option Error → Prop
  | done : Issued read [] [] [] none
  | refused {e : Error} {plan : Plan} : Issued read (.error e :: plan) [] [] (some e)
  | failed {r : Request} {answer : Except Error Value} {e : Error} {plan : Plan}
      (hread : answer >>= read = .error e) :
      Issued read (.ok r :: plan) [⟨r, answer⟩] [] (some e)
  | next {r : Request} {answer : Except Error Value} {b : β} {plan : Plan} {cs : List Call}
      {bs : List β} {stop : Option Error} (hread : answer >>= read = .ok b)
      (rest : Issued read plan cs bs stop) :
      Issued read (.ok r :: plan) (⟨r, answer⟩ :: cs) (b :: bs) stop

namespace Issued

variable {β : Type} {read : Value → Except Error β} {plan p q : Plan} {cs ds : List Call}
  {bs as : List β} {stop : Option Error}

/-- A plan that is done goes on with what follows it. -/
theorem append (h : Issued read p cs bs none) (h' : Issued read q ds as stop) :
    Issued read (p ++ q) (cs ++ ds) (bs ++ as) stop := by
  generalize hs : (none : Option Error) = s at h
  induction h with
  | done => exact h'
  | refused => exact absurd hs (by simp)
  | failed => exact absurd hs (by simp)
  | next hread _ ih => exact .next hread (ih hs)

/-- A plan that ends in an error does not reach what follows it. -/
theorem append_of_stop {e : Error} (h : Issued read p cs bs (some e)) :
    Issued read (p ++ q) cs bs (some e) := by
  generalize hs : some e = s at h ⊢
  induction h with
  | done => exact absurd hs (by simp)
  | refused => exact .refused
  | failed hread => exact .failed hread
  | next hread _ ih => exact .next hread (ih hs)

/-- A plan in two parts ends in the first, or has done that and goes on with the second. -/
theorem append_cases (h : Issued read (p ++ q) cs bs stop) :
    (∃ e, stop = some e ∧ Issued read p cs bs (some e)) ∨
      ∃ cs₁ bs₁ cs₂ bs₂, cs = cs₁ ++ cs₂ ∧ Issued read p cs₁ bs₁ none ∧
        Issued read q cs₂ bs₂ stop := by
  induction p generalizing cs bs with
  | nil => exact .inr ⟨[], [], cs, bs, rfl, .done, h⟩
  | cons r p ih =>
    cases h with
    | refused => exact .inl ⟨_, rfl, .refused⟩
    | failed hread => exact .inl ⟨_, rfl, .failed hread⟩
    | next hread rest =>
      obtain ⟨e, rfl, h⟩ | ⟨cs₁, bs₁, cs₂, bs₂, rfl, h₁, h₂⟩ := ih rest
      · exact .inl ⟨e, rfl, .next hread h⟩
      · exact .inr ⟨_ :: cs₁, _ :: bs₁, cs₂, bs₂, rfl, .next hread h₁, h₂⟩

/-- A plan in two parts that is done has done each of them. -/
theorem of_append (h : Issued read (p ++ q) cs bs none) :
    ∃ cs₁ bs₁ cs₂ bs₂, cs = cs₁ ++ cs₂ ∧ Issued read p cs₁ bs₁ none ∧
      Issued read q cs₂ bs₂ none := by
  obtain ⟨e, he, -⟩ | hparts := h.append_cases
  · cases he
  · exact hparts

/-- **The calls of a plan are its beginning.** -/
theorem requests_prefix (h : Issued read plan cs bs stop) :
    cs.map (fun c => .ok c.request) <+: plan := by
  induction h with
  | done => exact List.prefix_refl _
  | refused => exact List.nil_prefix
  | failed => exact (List.prefix_cons_inj _).2 List.nil_prefix
  | next _ _ ih => exact (List.prefix_cons_inj _).2 ih

/-- **The calls of a plan that is done are all of it.** -/
theorem requests_eq (h : Issued read plan cs bs none) :
    cs.map (fun c => .ok c.request) = plan := by
  generalize hs : (none : Option Error) = s at h
  induction h with
  | done => rfl
  | refused => exact absurd hs (by simp)
  | failed => exact absurd hs (by simp)
  | next _ _ ih => rw [List.map_cons, ih hs]

/-- If a plan that is done refuses nothing, its requests are those of the calls. -/
theorem requests_eq_of_plan {rs : List Request} (h : Issued read (rs.map .ok) cs bs none) :
    cs.map Call.request = rs := by
  have hinj : Function.Injective (Except.ok : Request → Except Error Request) :=
    fun _ _ => Except.ok.inj
  refine List.map_injective_iff.2 hinj ?_
  rw [List.map_map]
  exact h.requests_eq

/-- A call of a plan makes one of its requests. -/
theorem request_mem (h : Issued read plan cs bs stop) {c : Call} (hc : c ∈ cs) :
    .ok c.request ∈ plan :=
  h.requests_prefix.subset (List.mem_map_of_mem hc)

/-- Each answer in a plan that is done was read. -/
theorem read_eq (h : Issued read plan cs bs none) :
    cs.map (fun c => c.answer >>= read) = bs.map .ok := by
  generalize hs : (none : Option Error) = s at h
  induction h with
  | done => rfl
  | refused => exact absurd hs (by simp)
  | failed => exact absurd hs (by simp)
  | next hread _ ih => rw [List.map_cons, List.map_cons, ih hs, hread]

/-- The answers determine how far a plan gets. -/
theorem unique {cs' ds' : List Call} {bs' : List β} {stop' : Option Error}
    (h : Issued read plan cs bs stop) (h' : Issued read plan cs' bs' stop')
    (heq : cs ++ ds = cs' ++ ds') : cs = cs' ∧ stop = stop' := by
  induction h generalizing cs' bs' with
  | done =>
    cases h'
    exact ⟨rfl, rfl⟩
  | refused =>
    cases h'
    exact ⟨rfl, rfl⟩
  | failed hread =>
    cases h' with
    | failed hread' =>
      obtain ⟨rfl, -⟩ := Call.cons_inj heq
      obtain rfl := Except.error.inj (hread.symm.trans hread')
      exact ⟨rfl, rfl⟩
    | next hread' =>
      obtain ⟨rfl, -⟩ := Call.cons_inj heq
      cases hread.symm.trans hread'
  | next hread _ ih =>
    cases h' with
    | failed hread' =>
      obtain ⟨rfl, -⟩ := Call.cons_inj heq
      cases hread.symm.trans hread'
    | next hread' rest' =>
      obtain ⟨rfl, htail⟩ := Call.cons_inj heq
      obtain ⟨rfl, rfl⟩ := ih rest' htail
      exact ⟨rfl, rfl⟩

/-- An answer that cannot be read is the last. -/
theorem last_of_error {before after : List Call} {c : Call} {e : Error}
    (h : Issued read plan (before ++ c :: after) bs stop) (hread : c.answer >>= read = .error e) :
    stop = some e ∧ after = [] := by
  induction before generalizing plan bs with
  | nil =>
    cases h with
    | failed hread' =>
      obtain rfl := Except.error.inj (hread.symm.trans hread')
      exact ⟨rfl, rfl⟩
    | next hread' => cases hread.symm.trans hread'
  | cons b before ih =>
    rw [List.cons_append] at h
    generalize hrest : before ++ c :: after = cs at h
    cases h with
    | failed => simp at hrest
    | next _ rest =>
      rw [← hrest] at rest
      exact ih rest

/-- A plan that ends in an error was refused a request, or could not read its last answer. -/
theorem stop_cases {e : Error} (h : Issued read plan cs bs (some e)) :
    (∃ rest, plan = cs.map (fun c => .ok c.request) ++ .error e :: rest) ∨
      ∃ before c, cs = before ++ [c] ∧ c.answer >>= read = .error e := by
  generalize hs : some e = s at h
  induction h with
  | done => cases hs
  | refused =>
    obtain rfl := Option.some.inj hs
    exact .inl ⟨_, rfl⟩
  | failed hread =>
    obtain rfl := Option.some.inj hs
    exact .inr ⟨[], _, rfl, hread⟩
  | next _ _ ih =>
    obtain ⟨rest, rfl⟩ | ⟨before, c, rfl, hread⟩ := ih hs
    · exact .inl ⟨rest, rfl⟩
    · exact .inr ⟨_ :: before, c, rfl, hread⟩

/-- What a call of a plan that is done has for an answer. -/
theorem exists_answer (h : Issued read plan cs bs none) {c : Call} (hc : c ∈ cs) :
    ∃ answer b, c.answer = .ok answer ∧ read answer = .ok b ∧ b ∈ bs := by
  have hmem : (c.answer >>= read) ∈ bs.map Except.ok :=
    h.read_eq ▸ List.mem_map_of_mem hc
  obtain ⟨b, hb, heq⟩ := List.mem_map.1 hmem
  cases hanswer : c.answer with
  | error e => rw [hanswer] at heq; cases heq
  | ok answer => exact ⟨answer, b, rfl, by rw [hanswer] at heq; exact heq.symm, hb⟩

end Issued

/-! ## Entries in chunks -/

/-- A request of entries, if their number is not refused. -/
def chunkRequest (request : Value → Request) (es : List Value) : Except Error Request :=
  (QueueClient.countEntries (.list es)).map fun _ => request (.list es)

/-- The plan to make requests of the entries, in chunks of a size. -/
def chunkPlan (request : Value → Request) (entries : List Value) (size : Size) : Plan :=
  match chunk entries size with
  | .error e => [.error e]
  | .ok ess => ess.map (chunkRequest request)

theorem chunkRequest_eq_ok {request : Value → Request} {es : List Value} {r : Request}
    (h : chunkRequest request es = .ok r) : r = request (.list es) := by
  unfold chunkRequest at h
  cases hn : QueueClient.countEntries (.list es) with
  | error e => rw [hn] at h; cases h
  | ok n => rw [hn] at h; exact (Except.ok.inj h).symm

/-- A request is refused for no entries, and for too many. -/
theorem exists_chunkRequest_iff {request : Value → Request} {es : List Value} :
    (∃ r, chunkRequest request es = .ok r) ↔ es ≠ [] ∧ es.length ≤ maxEntries := by
  unfold chunkRequest QueueClient.countEntries
  cases es with
  | nil =>
    constructor
    · rintro ⟨r, hr⟩
      cases hr
    · rintro ⟨hne, -⟩
      exact absurd rfl hne
  | cons e es =>
    have htruthy : (Value.list (e :: es)).truthy = true := rfl
    have helements : (Value.list (e :: es)).elements? = some (e :: es) := rfl
    simp only [htruthy, helements, Bool.not_true, Bool.false_eq_true, if_false]
    by_cases hmany : (e :: es).length > maxEntries
    · rw [if_pos hmany]
      constructor
      · rintro ⟨r, hr⟩
        cases hr
      · rintro ⟨-, hfew⟩
        exact absurd hmany (Nat.not_lt.2 hfew)
    · rw [if_neg hmany]
      exact ⟨fun _ => ⟨List.cons_ne_nil _ _, Nat.not_lt.1 hmany⟩, fun _ => ⟨_, rfl⟩⟩

/-- A request of a plan in chunks holds some of the entries. -/
theorem exists_of_mem_chunkPlan {request : Value → Request} {entries : List Value} {size : Size}
    {r : Request} (h : .ok r ∈ chunkPlan request entries size) :
    ∃ es, r = request (.list es) ∧ es ⊆ entries := by
  unfold chunkPlan at h
  split at h
  · simp at h
  · rename_i ess hess
    obtain ⟨es, hes, heq⟩ := List.mem_map.1 h
    refine ⟨es, chunkRequest_eq_ok heq, fun v hv => ?_⟩
    rw [← flatten_chunk hess]
    exact List.mem_flatten.2 ⟨es, hes, hv⟩

/-- **A plan in chunks that can be done holds exactly the entries**, in order. -/
theorem flatten_of_chunkPlan {request : Value → Request} {entries : List Value} {size : Size}
    {rs : List Request} (h : rs.map .ok = chunkPlan request entries size) :
    ∃ ess : List (List Value), rs = ess.map (fun es => request (.list es)) ∧
      ess.flatten = entries := by
  unfold chunkPlan at h
  split at h
  · rename_i e _
    cases rs with
    | nil => cases h
    | cons r rs => cases h
  · rename_i ess hess
    refine ⟨ess, ?_, flatten_chunk hess⟩
    clear hess
    induction ess generalizing rs with
    | nil => simpa using h
    | cons es ess ih =>
      cases rs with
      | nil => cases h
      | cons r rs =>
        rw [List.map_cons, List.map_cons, List.cons.injEq] at h
        rw [List.map_cons, ← ih h.2, chunkRequest_eq_ok h.1.symm]

/-- **The calls of a plan in chunks that is done hold exactly the entries**, in order. -/
theorem entriesOf_of_chunkPlan {β : Type} {read : Value → Except Error β} {bs : List β}
    {cs : List Call} {request : Value → Request} {entries : List Value} {size : Size}
    (h : Issued read (chunkPlan request entries size) cs bs none)
    (hrequest : ∀ es, (request (.list es)).entries = es) : entriesOf cs = entries := by
  have hplan : (cs.map Call.request).map .ok = chunkPlan request entries size := by
    rw [List.map_map]
    exact h.requests_eq
  obtain ⟨ess, hess, hflatten⟩ := flatten_of_chunkPlan hplan
  calc entriesOf cs = (cs.map Call.request).flatMap Request.entries := by
        rw [List.flatMap_map]; rfl
    _ = ess.flatMap fun es => (request (.list es)).entries := by rw [hess, List.flatMap_map]
    _ = ess.flatten := by simp only [hrequest, List.flatMap_id']
    _ = entries := hflatten

/-- If a request of a plan in chunks is refused, the first one is. -/
theorem eq_nil_of_refused {request : Value → Request} {entries : List Value} {size : Size}
    {rs : List Request} {e : Error} {rest : Plan}
    (h : chunkPlan request entries size = rs.map .ok ++ .error e :: rest) : rs = [] := by
  cases rs with
  | nil => rfl
  | cons r rs =>
    unfold chunkPlan chunk at h
    cases hstride : size.stride with
    | error e' =>
      rw [hstride] at h
      cases h
    | ok n =>
      rw [hstride] at h
      change (chunks n entries).map (chunkRequest request) = _ at h
      cases hchunks : chunks n entries with
      | nil =>
        rw [hchunks] at h
        cases h
      | cons es ess =>
        rw [hchunks, List.map_cons, List.map_cons, List.cons_append, List.cons.injEq] at h
        have hmem : (.error e : Except Error Request) ∈ ess.map (chunkRequest request) := by
          rw [h.2]
          simp
        obtain ⟨fs, hfs, hrefused⟩ := List.mem_map.1 hmem
        have hfirst := (exists_chunkRequest_iff.1 ⟨r, h.1⟩).2
        have hin : fs ∈ chunks n entries := hchunks ▸ List.mem_cons_of_mem _ hfs
        have hlength := Nat.le_trans (length_le_of_chunks_eq_cons hchunks hfs) hfirst
        obtain ⟨r', haccepted⟩ :=
          exists_chunkRequest_iff.2 ⟨(length_le_of_mem_chunks hin).1, hlength⟩
        cases hrefused.symm.trans haccepted

/-- The entries in the calls of a plan in chunks are the first of those that it is for. -/
theorem entriesOf_prefix_of_chunkPlan {β : Type} {read : Value → Except Error β} {bs : List β}
    {cs : List Call} {request : Value → Request} {entries : List Value} {size : Size}
    {stop : Option Error} (h : Issued read (chunkPlan request entries size) cs bs stop)
    (hrequest : ∀ es, (request (.list es)).entries = es) : entriesOf cs <+: entries := by
  have hplan := h.requests_prefix
  clear h
  unfold chunkPlan at hplan
  split at hplan
  · cases cs with
    | nil => exact List.nil_prefix
    | cons c cs => cases (List.cons_prefix_cons.1 hplan).1
  · rename_i ess hess
    rw [← flatten_chunk hess]
    clear hess
    induction ess generalizing cs with
    | nil =>
      obtain rfl : cs = [] := by simpa using hplan
      exact List.nil_prefix
    | cons es ess ih =>
      cases cs with
      | nil => exact List.nil_prefix
      | cons c cs =>
        obtain ⟨hc, hcs⟩ := List.cons_prefix_cons.1 hplan
        have hentries : entriesOf (c :: cs) = es ++ entriesOf cs := by
          rw [entriesOf, List.flatMap_cons, chunkRequest_eq_ok hc.symm, hrequest]
          rfl
        rw [hentries, List.flatten_cons, List.prefix_append_right_inj]
        exact ih hcs

end PartialBatch
