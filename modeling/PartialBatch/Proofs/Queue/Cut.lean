/-
# Cutting a pass into requests

A request takes a limited number of entries, so a pass over many is cut: into requests of `n` entries
each, and a last one of the rest.

| pass | cut into |
| --- | --- |
| deletes or sends `k` entries | `⌈k / n⌉` requests (`length_cut`), each with 1 to `n` of them |
| reads attributes | itself |

A cut loses nothing and changes no order (`entries_cut`). With a size that is a whole number from 1
to the most entries of a request, a plan in chunks is a pass cut that way, and none of its requests
is refused (`chunkPlan_eq`).

So where passes are cut cannot be told from what is deleted from a queue, from what is sent on behalf
of one or to one, or from the order in which queues are dealt with (`sameWork_of_cuts`). The last holds
only of passes that hold something, since an empty one is cut into no request.
-/

import PartialBatch.Proofs.Queue.Plan
import Mathlib.Data.List.Destutter
import Mathlib.Data.List.Nodup

namespace PartialBatch

/-! ## Repetitions in a list -/

/-- Whether a list repeats the elements of another where they stand. -/
inductive Repeats {α : Type} : List α → List α → Prop
  | nil : Repeats [] []
  | cons {a : α} {xs ys : List α} (k : Nat) (rest : Repeats xs ys) :
      Repeats (List.replicate (k + 1) a ++ xs) (a :: ys)

section Repetitions

variable {α : Type} [DecidableEq α] {a : α} {xs ys : List α}

theorem destutter'_replicate_append (k : Nat) :
    (List.replicate k a ++ xs).destutter' (· ≠ ·) a = xs.destutter' (· ≠ ·) a := by
  induction k with
  | zero => rfl
  | succ k ih =>
    rw [List.replicate_succ, List.cons_append, List.destutter'_cons_neg _ (by simp), ih]

theorem Repeats.destutter'_eq (h : Repeats xs ys) :
    xs.destutter' (· ≠ ·) a = ys.destutter' (· ≠ ·) a := by
  induction h generalizing a with
  | nil => rfl
  | @cons b xs ys k _ ih =>
    rw [List.replicate_succ, List.cons_append]
    by_cases hb : a = b
    · rw [hb, List.destutter'_cons_neg _ (by simp), List.destutter'_cons_neg _ (by simp),
        destutter'_replicate_append, ih]
    · rw [List.destutter'_cons_pos _ hb, List.destutter'_cons_pos _ hb,
        destutter'_replicate_append, ih]

/-- Repeated elements are listed once. -/
theorem Repeats.destutter_eq (h : Repeats xs ys) :
    xs.destutter (· ≠ ·) = ys.destutter (· ≠ ·) := by
  cases h with
  | nil => rfl
  | cons k rest =>
    rw [List.replicate_succ, List.cons_append, List.destutter_cons', List.destutter_cons',
      destutter'_replicate_append, rest.destutter'_eq]

end Repetitions

/-! ## Requests -/

namespace Request

variable {n : Nat} {r pass : Request}

/-- The requests that a pass is cut into, with `n` entries each. -/
def cut (n : Nat) : Request → List Request
  | delete url (.list es) => (chunks n es).map fun part => delete url (.list part)
  | send url (.list es) => (chunks n es).map fun part => send url (.list part)
  | r => [r]

/-- **Cutting a pass loses no entry** and keeps their order. -/
theorem entries_cut (n : Nat) (pass : Request) : (pass.cut n).flatMap entries = pass.entries := by
  unfold cut
  split
  · rw [List.flatMap_map]
    exact List.flatMap_id'.trans (flatten_chunks n _)
  · rw [List.flatMap_map]
    exact List.flatMap_id'.trans (flatten_chunks n _)
  · rw [List.flatMap_singleton]

end Request

/-! ## What a cut leaves as it is -/

namespace Request

/-- A request without its entries. -/
def bare : Request → Request
  | delete url _ => delete url .null
  | send url _ => send url .null
  | attributes url names => attributes url names

/-- The URL of the queue that a request deletes from or asks about; a send tells none. -/
def source? : Request → Option Value
  | delete url _ => some url
  | send _ _ => none
  | attributes url _ => some url

/-- The queues that requests deal with, in order; one is listed again only after another. -/
def sources (rs : List Request) : List Value := (rs.filterMap source?).destutter (· ≠ ·)

/-- Whether a request sends to a queue. -/
def sendsTo (queueUrl : Text) : Request → Bool
  | send url _ => url = .text queueUrl
  | _ => false

/-- The entries that requests send on behalf of a queue, if `active` says whether its redrive policy
was the one read last before. -/
def sentWhile (queueUrl : Text) : (active : Bool) → List Request → List Value
  | _, [] => []
  | active, r :: rest =>
    match r with
    | attributes url _ => sentWhile queueUrl (url = .text queueUrl) rest
    | send _ _ => (if active then r.entries else []) ++ sentWhile queueUrl active rest
    | delete _ _ => sentWhile queueUrl active rest

/-- Whether a request, if it deletes, holds entries. -/
def IsFilled : Request → Prop
  | delete _ (.list es) => es ≠ []
  | _ => True

section Cut

variable {n : Nat} {u : Text} {active : Bool} {r pass : Request} {passes rs : List Request}

theorem bare_of_mem_cut (h : r ∈ pass.cut n) : r.bare = pass.bare := by
  unfold cut at h
  split at h
  · obtain ⟨part, -, rfl⟩ := List.mem_map.1 h
    rfl
  · obtain ⟨part, -, rfl⟩ := List.mem_map.1 h
    rfl
  · rw [List.mem_singleton.1 h]

/-- Of requests that are picked without looking at their entries, a cut keeps the entries. -/
theorem entries_filter_cut {q : Request → Bool} (hq : ∀ r, q r.bare = q r) (passes : List Request) :
    ((passes.flatMap (cut n)).filter q).flatMap entries = (passes.filter q).flatMap entries := by
  have hsame {r pass : Request} (hr : r ∈ pass.cut n) : q r = q pass := by
    rw [← hq, bare_of_mem_cut hr, hq]
  induction passes with
  | nil => rfl
  | cons pass passes ih =>
    rw [List.flatMap_cons, List.filter_append, List.flatMap_append, ih]
    cases hpass : q pass with
    | true =>
      rw [List.filter_eq_self.2 fun r hr => (hsame hr).trans hpass, entries_cut,
        List.filter_cons_of_pos hpass, List.flatMap_cons]
    | false =>
      have hnone : (pass.cut n).filter q = [] :=
        List.filter_eq_nil_iff.2 fun r hr => by simp [hsame hr, hpass]
      rw [hnone, List.filter_cons_of_neg (by simp [hpass])]
      rfl

/-- The requests of a pass send on behalf of a queue what the pass does. -/
theorem sentWhile_cut_append :
    sentWhile u active (pass.cut n ++ rs) = sentWhile u active (pass :: rs) := by
  unfold cut
  split
  · rename_i url es
    change _ = sentWhile u active rs
    induction chunks n es with
    | nil => rfl
    | cons part parts ih => exact ih
  · rename_i url es
    have hparts (parts : List (List Value)) :
        sentWhile u active ((parts.map fun part => send url (.list part)) ++ rs) =
          (if active then parts.flatten else []) ++ sentWhile u active rs := by
      induction parts with
      | nil => cases active <;> rfl
      | cons part parts ih =>
        rw [List.map_cons, List.cons_append, sentWhile, ih]
        cases active <;> simp [entries]
    rw [hparts, flatten_chunks]
    rfl
  · rfl

theorem sentWhile_cut (passes : List Request) :
    sentWhile u active (passes.flatMap (cut n)) = sentWhile u active passes := by
  induction passes generalizing active with
  | nil => rfl
  | cons pass passes ih =>
    rw [List.flatMap_cons, sentWhile_cut_append]
    cases pass <;> simp only [sentWhile, ih]

theorem source?_of_mem_cut (h : r ∈ pass.cut n) : r.source? = pass.source? := by
  have hbare (r : Request) : r.bare.source? = r.source? := by cases r <;> rfl
  rw [← hbare, bare_of_mem_cut h, hbare]

/-- A pass that deals with a queue is cut into some requests. -/
theorem cut_ne_nil (h : pass.IsFilled) (hsource : pass.source? ≠ none) : pass.cut n ≠ [] := by
  unfold cut
  split
  · rename_i url es
    cases es with
    | nil => exact absurd rfl h
    | cons e es =>
      rw [chunks]
      exact List.cons_ne_nil _ _
  · exact absurd rfl hsource
  · exact List.cons_ne_nil _ _

/-- The requests of a pass name the queue that it deals with, again and again. -/
theorem filterMap_cut {url : Value} (h : pass.IsFilled) (hsource : pass.source? = some url) :
    ∃ k, (pass.cut n).filterMap source? = List.replicate (k + 1) url := by
  have hne : pass.cut n ≠ [] := cut_ne_nil h (by simp [hsource])
  obtain ⟨k, hk⟩ := Nat.exists_eq_succ_of_ne_zero fun hzero =>
    hne (List.eq_nil_of_length_eq_zero hzero)
  refine ⟨k, ?_⟩
  have hall : (pass.cut n).filterMap source? = (pass.cut n).map fun _ => url :=
    List.filterMap_eq_map_iff_forall_eq_some.2 fun r hr => (source?_of_mem_cut hr).trans hsource
  rw [hall, List.map_const', hk]

/-- The requests of passes name the queues that the passes deal with, each several times. -/
theorem repeats_cut (h : ∀ pass ∈ passes, pass.IsFilled) :
    Repeats ((passes.flatMap (cut n)).filterMap source?) (passes.filterMap source?) := by
  induction passes with
  | nil => exact .nil
  | cons pass passes ih =>
    obtain ⟨hpass, hpasses⟩ := List.forall_mem_cons.1 h
    rw [List.flatMap_cons, List.filterMap_append]
    cases hsource : pass.source? with
    | none =>
      have hnone : (pass.cut n).filterMap source? = [] :=
        List.filterMap_eq_nil_iff.2 fun r hr => (source?_of_mem_cut hr).trans hsource
      rw [hnone, List.nil_append, List.filterMap_cons_none hsource]
      exact ih hpasses
    | some url =>
      obtain ⟨k, hk⟩ := filterMap_cut (n := n) hpass hsource
      rw [hk, List.filterMap_cons_some hsource]
      exact .cons k (ih hpasses)

end Cut
end Request

/-- The entries that calls send on behalf of a queue are those of their requests. -/
theorem entriesOf_sendsWhile {u : Text} {active : Bool} (cs : List Call) :
    entriesOf (sendsWhile u active cs) = Request.sentWhile u active (cs.map Call.request) := by
  induction cs generalizing active with
  | nil => rfl
  | cons c cs ih =>
    obtain ⟨r, answer⟩ := c
    cases r with
    | attributes _ _ => exact ih
    | delete _ _ => exact ih
    | send _ _ =>
      rw [sendsWhile_send, entriesOf_append, ih, List.map_cons, Request.sentWhile]
      cases active <;> simp [entriesOf]

/-- The queues that calls deal with, in order. -/
def sources (cs : List Call) : List Value := Request.sources (cs.map Call.request)

/-- The calls that send to a queue. -/
def sendsTo (queueUrl : Text) (cs : List Call) : List Call :=
  cs.filter fun c => c.request.sendsTo queueUrl

/-- Whether calls do the same work, however that is cut into requests. -/
structure SameWork (cs cs' : List Call) : Prop where
  /-- The queues are dealt with in the same order. -/
  sources : sources cs = sources cs'
  /-- The same is deleted from each queue, in the same order. -/
  deletes (queueUrl : Text) :
    entriesOf (deletesFrom queueUrl cs) = entriesOf (deletesFrom queueUrl cs')
  /-- The same is sent on behalf of each queue, in the same order. -/
  sends (queueUrl : Text) : entriesOf (sendsFor queueUrl cs) = entriesOf (sendsFor queueUrl cs')
  /-- The same is sent to each queue, in the same order. -/
  arrives (queueUrl : Text) : entriesOf (sendsTo queueUrl cs) = entriesOf (sendsTo queueUrl cs')

/-- **Requests of the same passes do the same work.** -/
theorem sameWork_of_cuts {m n : Nat} {passes : List Request} {cs cs' : List Call}
    (hfilled : ∀ pass ∈ passes, pass.IsFilled)
    (h : cs.map Call.request = passes.flatMap (Request.cut m))
    (h' : cs'.map Call.request = passes.flatMap (Request.cut n)) : SameWork cs cs' := by
  have hpicked {q : Request → Bool} (hq : ∀ r, q r.bare = q r) :
      entriesOf (cs.filter fun c => q c.request) = entriesOf (cs'.filter fun c => q c.request) := by
    have hrequests (ds : List Call) : entriesOf (ds.filter fun c => q c.request) =
        ((ds.map Call.request).filter q).flatMap Request.entries := by
      rw [List.filter_map, List.flatMap_map]
      rfl
    rw [hrequests, hrequests, h, h', Request.entries_filter_cut hq, Request.entries_filter_cut hq]
  refine ⟨?_, fun u => hpicked fun r => ?_, fun u => ?_, fun u => hpicked fun r => ?_⟩
  · have hcut (n : Nat) : Request.sources (passes.flatMap (Request.cut n)) =
        Request.sources passes := (Request.repeats_cut hfilled).destutter_eq
    rw [sources, sources, h, h', hcut, hcut]
  · cases r <;> rfl
  · rw [sendsFor, sendsFor, entriesOf_sendsWhile, entriesOf_sendsWhile, h, h',
      Request.sentWhile_cut, Request.sentWhile_cut]
  · cases r <;> rfl

/-! ## Plans in chunks -/

section Plans

variable {size : Size} {n : Nat}

/-- **A plan in chunks refuses nothing**, if they have `n` entries and requests may have as many. -/
theorem chunkPlan_eq (hstride : size.stride = .ok n) (hpos : 0 < n) (hn : n ≤ maxEntries)
    (request : Value → Request) (entries : List Value) :
    chunkPlan request entries size =
      ((chunks n entries).map fun es => request (.list es)).map .ok := by
  rw [chunkPlan, chunk_of_stride hstride, List.map_map]
  refine List.map_congr_left fun es hes => ?_
  obtain ⟨hne, hlength⟩ := length_le_of_mem_chunks hes
  obtain ⟨r, hr⟩ : ∃ r, chunkRequest request es = .ok r :=
    exists_chunkRequest_iff.2 ⟨hne, by omega⟩
  rw [hr, chunkRequest_eq_ok hr]
  rfl

end Plans
end PartialBatch
