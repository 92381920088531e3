/-
# The calls for one queue

Moving the failures of a queue is one block of calls: its redrive policy is read, its messages
are sent, and those that were moved are deleted. The blocks of different queues follow one
another, so the sends between two readings of a policy are those of one block, and `sendsFor`
finds exactly them: in a block the sends for its queue and none for another
(`Block.sendsWhile_append`), in all blocks those of the block of the queue, if it has one
(`Redriven.sendsOf_of_mem`, `Redriven.mem_sendsWhile`, `Redriven.sendsWhile_eq_nil`).

The answer that is read first in a block tells its route: which queue the messages are sent to, and
in which entries (`Moving.routed`). From there on the answers to the sends determine how moving them
ends (`Moving.unique`).
-/

import PartialBatch.Proofs.Batch.Cleanup

namespace PartialBatch

/-! ## Finding sends -/

section Sends

variable {u : Text} {active : Bool} {cs ds rest : List Call}

/-- Whether a request sends. -/
def Request.isSend : Request → Prop
  | .send _ _ => True
  | _ => False

/-- Whether a request deletes. -/
def Request.isDelete : Request → Prop
  | .delete _ _ => True
  | _ => False

theorem Request.not_isDelete_of_isSend {r : Request} (hsend : r.isSend) (hdelete : r.isDelete) :
    False := by
  cases r with
  | send _ _ => exact hdelete
  | delete _ _ => exact hsend
  | attributes _ _ => exact hsend

theorem Request.isDelete_of_deletesFrom {r : Request} (h : r.deletesFrom u = true) :
    r.isDelete := by
  cases r with
  | delete _ _ => trivial
  | send _ _ => cases h
  | attributes _ _ => cases h

theorem sendsWhile_policyRequest {v : Text} {answer : Except Error Value} :
    sendsWhile u active (⟨QueueClient.policyRequest v, answer⟩ :: rest) =
      sendsWhile u (v = u) rest := by
  rw [QueueClient.policyRequest, sendsWhile_attributes]
  simp

theorem sendsWhile_sends_append (h : ∀ c ∈ cs, c.request.isSend) :
    sendsWhile u active (cs ++ rest) =
      (if active then cs else []) ++ sendsWhile u active rest := by
  induction cs with
  | nil => cases active <;> rfl
  | cons c cs ih =>
    obtain ⟨r, answer⟩ := c
    have hr : r.isSend := h _ (List.mem_cons_self ..)
    have hcs := ih fun c hc => h c (List.mem_cons_of_mem _ hc)
    cases r with
    | delete _ _ => exact absurd hr id
    | attributes _ _ => exact absurd hr id
    | send _ _ =>
      rw [List.cons_append, sendsWhile_send, hcs]
      cases active <;> rfl

/-- Which sends are found does not depend on what follows. -/
theorem sendsWhile_prefix : sendsWhile u active cs <+: sendsWhile u active (cs ++ rest) := by
  induction cs generalizing active with
  | nil => exact List.nil_prefix
  | cons c cs ih =>
    obtain ⟨r, answer⟩ := c
    cases r with
    | send _ _ =>
      rw [List.cons_append, sendsWhile_send, sendsWhile_send, List.prefix_append_right_inj]
      exact ih
    | delete _ _ => exact ih
    | attributes _ _ => exact ih

/-- The reading of a redrive policy decides about the sends that follow it. -/
theorem sendsWhile_append_policyRequest {v : Text} {answer : Except Error Value} :
    sendsWhile u active (cs ++ ⟨QueueClient.policyRequest v, answer⟩ :: rest) =
      sendsWhile u active cs ++ sendsWhile u (v = u) rest := by
  induction cs generalizing active with
  | nil => exact sendsWhile_policyRequest
  | cons c cs ih =>
    obtain ⟨r, answer'⟩ := c
    cases r with
    | send _ _ =>
      rw [List.cons_append, sendsWhile_send, sendsWhile_send, ih, List.append_assoc]
    | delete _ _ => exact ih
    | attributes _ _ => exact ih

/-- Where there are only sends, all or none of them are found. -/
theorem sendsWhile_sends (h : ∀ c ∈ cs, c.request.isSend) :
    sendsWhile u active cs = if active then cs else [] := by
  have happend : sendsWhile u active (cs ++ []) = _ := sendsWhile_sends_append h
  rwa [List.append_nil, sendsWhile_nil, List.append_nil] at happend

theorem sendsWhile_deletes_append (h : ∀ c ∈ cs, c.request.isDelete) :
    sendsWhile u active (cs ++ rest) = sendsWhile u active rest := by
  induction cs with
  | nil => rfl
  | cons c cs ih =>
    obtain ⟨r, answer⟩ := c
    have hr : r.isDelete := h _ (List.mem_cons_self ..)
    have hcs := ih fun c hc => h c (List.mem_cons_of_mem _ hc)
    cases r with
    | send _ _ => exact absurd hr id
    | attributes _ _ => exact absurd hr id
    | delete _ _ => rw [List.cons_append, sendsWhile_delete, hcs]

/-- No send is found where there are only deletes. -/
theorem sendsWhile_deletes (h : ∀ c ∈ cs, c.request.isDelete) :
    sendsWhile u active cs = [] := by
  rw [← List.append_nil cs, sendsWhile_deletes_append h, sendsWhile_nil]

/-- Deletes that follow make no difference to the sends that are found. -/
theorem sendsWhile_append_deletes (h : ∀ c ∈ ds, c.request.isDelete) :
    sendsWhile u active (cs ++ ds) = sendsWhile u active cs := by
  induction cs generalizing active with
  | nil => rw [List.nil_append, sendsWhile_deletes h, sendsWhile_nil]
  | cons c cs ih =>
    obtain ⟨r, answer⟩ := c
    cases r with
    | send _ _ => rw [List.cons_append, sendsWhile_send, sendsWhile_send, ih]
    | delete _ _ => rw [List.cons_append, sendsWhile_delete, sendsWhile_delete, ih]
    | attributes _ _ => rw [List.cons_append, sendsWhile_attributes, sendsWhile_attributes, ih]

/-- In the calls of a block, the sends are found for its queue, and for no other. -/
theorem sendsWhile_block {queueUrl : Text} {answer : Except Error Value}
    {sends deletes : List Call}
    (hsends : ∀ c ∈ sends, c.request.isSend) (hdeletes : ∀ c ∈ deletes, c.request.isDelete) :
    sendsWhile u active
        (⟨QueueClient.policyRequest queueUrl, answer⟩ :: (sends ++ deletes) ++ rest) =
      (if queueUrl = u then sends else []) ++ sendsWhile u (queueUrl = u) rest := by
  rw [List.cons_append, sendsWhile_policyRequest, List.append_assoc,
    sendsWhile_sends_append hsends, sendsWhile_deletes_append hdeletes]
  by_cases h : queueUrl = u <;> simp [h]

end Sends

namespace Batch

variable {size : Size} {queueUrl u : Text} {groups : QueueGroups} {ms moved : List Message}
  {m : Message} {cs ds before after : List Call} {c : Call} {stop : Option Error}

/-! ## What single calls do -/

/-- Whether a call sends entries of messages. -/
def SendsOf (ms : List Message) (c : Call) : Prop :=
  ∃ deadLetterUrl es entries, c.request = .send (.text deadLetterUrl) (.list es) ∧
    Message.sendEntries ms = .ok entries ∧ es ⊆ entries

/-- Whether a call deletes messages from a queue. -/
def DeletesOf (queueUrl : Text) (ms : List Message) (c : Call) : Prop :=
  ∃ es, c.request = .delete (.text queueUrl) (.list es) ∧
    ∀ entry ∈ es, ∃ m ∈ ms, entry = m.deleteEntry

theorem SendsOf.isSend (h : SendsOf ms c) : c.request.isSend := by
  obtain ⟨_, _, _, hr, -⟩ := h
  rw [hr]
  trivial

theorem DeletesOf.isDelete (h : DeletesOf queueUrl ms c) : c.request.isDelete := by
  obtain ⟨_, hr, -⟩ := h
  rw [hr]
  trivial

/-- Requests to a dead-letter queue send. -/
theorem isSend_of_to {deadLetterUrl : Text}
    (h : ∀ c ∈ cs, ∃ es, c.request = .send (.text deadLetterUrl) (.list es)) :
    ∀ c ∈ cs, c.request.isSend := by
  intro c hc
  obtain ⟨es, hr⟩ := h c hc
  rw [hr]
  trivial

theorem isDelete_of_deletesOf (h : ∀ c ∈ cs, ∃ ms, DeletesOf queueUrl ms c) :
    ∀ c ∈ cs, c.request.isDelete := by
  intro c hc
  obtain ⟨ms, hdeletes⟩ := h c hc
  exact hdeletes.isDelete

/-- A request of the plan for a queue deletes messages of it. -/
theorem deletesOf_of_mem (h : .ok c.request ∈ deletePlan size queueUrl ms) :
    DeletesOf queueUrl ms c := by
  unfold deletePlan at h
  split at h
  · simp at h
  · obtain ⟨es, hr, hsub⟩ := exists_of_mem_chunkPlan h
    refine ⟨es, hr, fun entry hentry => ?_⟩
    obtain ⟨m, hm, rfl⟩ := List.mem_map.1 (hsub hentry)
    exact ⟨m, hm, rfl⟩

/-- Following the plan for a queue deletes its messages. -/
theorem deletesOf_of_deletePlan {lists : List (List Value)}
    (h : Issued QueueClient.failedEntries (deletePlan size queueUrl ms) cs lists stop)
    (hc : c ∈ cs) : DeletesOf queueUrl ms c := deletesOf_of_mem (h.request_mem hc)

/-- Following the plan for groups deletes the messages of each from its queue. -/
theorem deletesOf_of_groupsPlan {lists : List (List Value)}
    (h : Issued QueueClient.failedEntries (groupsPlan size groups) cs lists stop) (hc : c ∈ cs) :
    ∃ group ∈ groups, DeletesOf group.1 group.2 c := by
  obtain ⟨group, hgroup, hr⟩ := List.mem_flatMap.1 (h.request_mem hc)
  exact ⟨group, hgroup, deletesOf_of_mem hr⟩

/-- Following the plan for groups only deletes. -/
theorem isDelete_of_groupsPlan {lists : List (List Value)}
    (h : Issued QueueClient.failedEntries (groupsPlan size groups) cs lists stop) :
    ∀ c ∈ cs, c.request.isDelete := by
  intro c hc
  obtain ⟨group, -, hdeletes⟩ := deletesOf_of_groupsPlan h hc
  exact hdeletes.isDelete

/-- The calls of a `Moving` read one redrive policy, and send after that. -/
theorem Moving.exists_eq_cons {x : Except Error (List Message)}
    (h : Moving size queueUrl ms cs x) :
    ∃ answer sends, cs = ⟨QueueClient.policyRequest queueUrl, answer⟩ :: sends ∧
      ∀ c ∈ sends, SendsOf ms c := by
  have hsends {deadLetterUrl : Text} {entries : List Value} {sends : List Call}
      {idss : List (List Value)} {stop : Option Error}
      (hentries : Message.sendEntries ms = .ok entries)
      (hissued : Issued failedIds (chunkPlan (.send (.text deadLetterUrl)) entries size) sends
        idss stop) : ∀ c ∈ sends, SendsOf ms c := by
    intro c hc
    obtain ⟨es, hr, hsub⟩ := exists_of_mem_chunkPlan (hissued.request_mem hc)
    exact ⟨_, es, entries, hr, hentries, hsub⟩
  cases h with
  | unread hpolicy => exact ⟨_, [], rfl, by simp⟩
  | absent hpolicy => exact ⟨_, [], rfl, by simp⟩
  | unusable hpolicy hurl => exact ⟨_, [], rfl, by simp⟩
  | unsendable hpolicy hurl hentries => exact ⟨_, [], rfl, by simp⟩
  | unsent hpolicy hurl hentries hissued => exact ⟨_, _, rfl, hsends hentries hissued⟩
  | sent hpolicy hurl hentries hissued => exact ⟨_, _, rfl, hsends hentries hissued⟩

/-- Nothing is deleted in a `Moving`. -/
theorem Moving.not_isDelete {x : Except Error (List Message)} (h : Moving size queueUrl ms cs x)
    (hc : c ∈ cs) : ¬c.request.isDelete := by
  obtain ⟨answer, sends, rfl, hsends⟩ := h.exists_eq_cons
  rcases List.mem_cons.1 hc with rfl | hc
  · exact id
  · exact Request.not_isDelete_of_isSend (hsends c hc).isSend

/-- The calls of a block: one redrive policy is read, messages are sent, messages are deleted. -/
theorem Block.exists_eq_append (h : Block size queueUrl ms cs stop) :
    ∃ answer sends deletes,
      cs = ⟨QueueClient.policyRequest queueUrl, answer⟩ :: (sends ++ deletes) ∧
      (∀ c ∈ sends, SendsOf ms c) ∧ ∀ c ∈ deletes, ∃ moved, DeletesOf queueUrl moved c := by
  cases h with
  | unmoved hmove =>
    obtain ⟨answer, sends, rfl, hsends⟩ := hmove.exists_eq_cons
    exact ⟨answer, sends, [], by rw [List.append_nil], hsends, by simp⟩
  | moved hmove hdelete =>
    obtain ⟨answer, sends, rfl, hsends⟩ := hmove.exists_eq_cons
    exact ⟨answer, sends, _, rfl, hsends, fun c hc => ⟨_, deletesOf_of_deletePlan hdelete hc⟩⟩

/-! ## Where messages are sent -/

/-- The dead-letter queue that an answer names for a queue, and the entries to send there; none if
there is no such queue. -/
def route (queueUrl : Text) (ms : List Message) (answer : Except Error Value) :
    Except Error (Option (Text × List Value)) := do
  match ← answer >>= QueueClient.policyIn queueUrl with
  | none => pure none
  | some policy =>
    let deadLetterUrl ← policy.deadLetterUrl
    let entries ← Message.sendEntries ms
    pure (some (deadLetterUrl, entries))

theorem route_eq_of_policy {answer : Value} {policy : RedrivePolicy}
    (hpolicy : QueueClient.policyIn queueUrl answer = .ok (some policy)) :
    route queueUrl ms (.ok answer) = policy.deadLetterUrl >>= fun deadLetterUrl =>
      Message.sendEntries ms >>= fun entries => pure (some (deadLetterUrl, entries)) :=
  congrArg (· >>= _) hpolicy

/-- A route is for all messages. -/
theorem sendEntries_of_route {answer : Except Error Value} {deadLetterUrl : Text}
    {entries : List Value} (h : route queueUrl ms answer = .ok (some (deadLetterUrl, entries))) :
    Message.sendEntries ms = .ok entries := by
  obtain ⟨policy?, -, h⟩ := bind_eq_ok.1 h
  cases policy? with
  | none => cases h
  | some policy =>
    obtain ⟨url, -, h⟩ := bind_eq_ok.1 h
    obtain ⟨es, hentries, h⟩ := bind_eq_ok.1 h
    obtain ⟨-, rfl⟩ := Prod.mk.inj (Option.some.inj (Except.ok.inj h))
    exact hentries

/-- What is sent by a route, and what moving messages on it ends in. -/
inductive Routed (size : Size) (ms : List Message) :
    Except Error (Option (Text × List Value)) → List Call → Except Error (List Message) → Prop
  | lost {e : Error} : Routed size ms (.error e) [] (.error e)
  | absent : Routed size ms (.ok none) [] (.ok [])
  | unsent {deadLetterUrl : Text} {entries : List Value} {cs : List Call}
      {idss : List (List Value)} {e : Error}
      (hissued : Issued failedIds (chunkPlan (.send (.text deadLetterUrl)) entries size) cs idss
        (some e)) :
      Routed size ms (.ok (some (deadLetterUrl, entries))) cs (.error e)
  | sent {deadLetterUrl : Text} {entries : List Value} {cs : List Call}
      {idss : List (List Value)}
      (hissued : Issued failedIds (chunkPlan (.send (.text deadLetterUrl)) entries size) cs idss
        none) :
      Routed size ms (.ok (some (deadLetterUrl, entries))) cs (.ok (unlisted cs ms))

/-- **The first answer of a `Moving` tells its route.** -/
theorem Moving.routed {x : Except Error (List Message)} (h : Moving size queueUrl ms cs x) :
    ∃ answer sends, cs = ⟨QueueClient.policyRequest queueUrl, answer⟩ :: sends ∧
      Routed size ms (route queueUrl ms answer) sends x := by
  cases h with
  | @unread answer e hpolicy =>
    have hroute : route queueUrl ms answer = .error e := by
      rw [route, hpolicy]
      rfl
    exact ⟨_, [], rfl, hroute ▸ .lost⟩
  | @absent answer hpolicy =>
    have hroute : route queueUrl ms (.ok answer) = .ok none := congrArg (· >>= _) hpolicy
    exact ⟨_, [], rfl, hroute ▸ .absent⟩
  | @unusable answer policy e hpolicy hurl =>
    have hroute : route queueUrl ms (.ok answer) = .error e := by
      rw [route_eq_of_policy hpolicy, hurl]
      rfl
    exact ⟨_, [], rfl, hroute ▸ .lost⟩
  | @unsendable answer policy deadLetterUrl e hpolicy hurl hentries =>
    have hroute : route queueUrl ms (.ok answer) = .error e := by
      rw [route_eq_of_policy hpolicy, hurl, hentries]
      rfl
    exact ⟨_, [], rfl, hroute ▸ .lost⟩
  | @unsent answer policy deadLetterUrl entries sends idss e hpolicy hurl hentries hissued =>
    have hroute : route queueUrl ms (.ok answer) = .ok (some (deadLetterUrl, entries)) := by
      rw [route_eq_of_policy hpolicy, hurl, hentries]
      rfl
    exact ⟨_, sends, rfl, hroute ▸ .unsent hissued⟩
  | @sent answer policy deadLetterUrl entries sends idss hpolicy hurl hentries hissued =>
    have hroute : route queueUrl ms (.ok answer) = .ok (some (deadLetterUrl, entries)) := by
      rw [route_eq_of_policy hpolicy, hurl, hentries]
      rfl
    exact ⟨_, sends, rfl, hroute ▸ .sent hissued⟩

/-- The answers determine what is sent by a route, and what that ends in. -/
theorem Routed.unique {r : Except Error (Option (Text × List Value))} {cs' ds' : List Call}
    {x x' : Except Error (List Message)} (h : Routed size ms r cs x) (h' : Routed size ms r cs' x')
    (heq : cs ++ ds = cs' ++ ds') : cs = cs' ∧ x = x' := by
  cases h with
  | lost =>
    cases h'
    exact ⟨rfl, rfl⟩
  | absent =>
    cases h'
    exact ⟨rfl, rfl⟩
  | unsent hissued =>
    cases h' with
    | unsent hissued' =>
      obtain ⟨rfl, hstop⟩ := hissued.unique hissued' heq
      obtain rfl := Option.some.inj hstop
      exact ⟨rfl, rfl⟩
    | sent hissued' => cases (hissued.unique hissued' heq).2
  | sent hissued =>
    cases h' with
    | unsent hissued' => cases (hissued.unique hissued' heq).2
    | sent hissued' =>
      obtain ⟨rfl, -⟩ := hissued.unique hissued' heq
      exact ⟨rfl, rfl⟩

/-- **The answers determine what moving messages calls**, and what it ends in. -/
theorem Moving.unique {cs' ds' : List Call} {x x' : Except Error (List Message)}
    (h : Moving size queueUrl ms cs x) (h' : Moving size queueUrl ms cs' x')
    (heq : cs ++ ds = cs' ++ ds') : cs = cs' ∧ x = x' := by
  obtain ⟨answer, sends, rfl, hrouted⟩ := h.routed
  obtain ⟨answer', sends', rfl, hrouted'⟩ := h'.routed
  obtain ⟨rfl, htail⟩ := Call.cons_inj heq
  obtain ⟨rfl, rfl⟩ := hrouted.unique hrouted' htail
  exact ⟨rfl, rfl⟩

/-! ## Sends on behalf of a queue -/

/-- The sends of a block are on behalf of its queue, and no others are. -/
theorem Block.sendsWhile_append (h : Block size queueUrl ms cs stop) :
    ∃ sends, (∀ c ∈ sends, SendsOf ms c) ∧ (∀ c ∈ cs, c.request.isSend → c ∈ sends) ∧
      ∀ u active rest, sendsWhile u active (cs ++ rest) =
        (if queueUrl = u then sends else []) ++ sendsWhile u (queueUrl = u) rest := by
  obtain ⟨answer, sends, deletes, rfl, hsends, hdeletes⟩ := h.exists_eq_append
  have hdelete := isDelete_of_deletesOf hdeletes
  refine ⟨sends, hsends, fun c hc hsend => ?_, fun u active rest => ?_⟩
  · rcases List.mem_cons.1 hc with rfl | hc
    · exact hsend.elim
    · exact (List.mem_append.1 hc).resolve_right fun hc =>
        Request.not_isDelete_of_isSend hsend (hdelete c hc)
  · exact sendsWhile_block (fun c hc => (hsends c hc).isSend) hdelete

/-- What is sent on behalf of a queue are its messages. -/
theorem Redriven.sendsOf_of_mem {active : Bool} (h : Redriven size groups cs stop)
    (hc : c ∈ sendsWhile u active cs) : ∃ group ∈ groups, group.1 = u ∧ SendsOf group.2 c := by
  induction h generalizing active with
  | done => simp at hc
  | @halted queueUrl ms _ cs e hblock =>
    obtain ⟨sends, hsends, -, heq⟩ := hblock.sendsWhile_append
    rw [← List.append_nil cs, heq, sendsWhile_nil, List.append_nil] at hc
    split at hc
    · exact ⟨_, List.mem_cons_self .., ‹_›, hsends c hc⟩
    · simp at hc
  | next hblock rest ih =>
    obtain ⟨sends, hsends, -, heq⟩ := hblock.sendsWhile_append
    rw [heq] at hc
    rcases List.mem_append.1 hc with hc | hc
    · split at hc
      · exact ⟨_, List.mem_cons_self .., ‹_›, hsends c hc⟩
      · simp at hc
    · obtain ⟨group, hgroup, hu, hsends⟩ := ih hc
      exact ⟨group, List.mem_cons_of_mem _ hgroup, hu, hsends⟩

/-- Every send is on behalf of a queue with messages to move. -/
theorem Redriven.mem_sendsWhile (h : Redriven size groups cs stop) (hc : c ∈ cs)
    (hsend : c.request.isSend) : ∃ group ∈ groups, ∀ active, c ∈ sendsWhile group.1 active cs := by
  induction h with
  | done => simp at hc
  | @halted queueUrl ms _ cs e hblock =>
    obtain ⟨sends, -, hmem, heq⟩ := hblock.sendsWhile_append
    refine ⟨_, List.mem_cons_self .., fun active => ?_⟩
    rw [← List.append_nil cs, heq, if_pos rfl]
    exact List.mem_append_left _ (hmem c hc hsend)
  | next hblock rest ih =>
    obtain ⟨sends, -, hmem, heq⟩ := hblock.sendsWhile_append
    rcases List.mem_append.1 hc with hc | hc
    · refine ⟨_, List.mem_cons_self .., fun active => ?_⟩
      rw [heq, if_pos rfl]
      exact List.mem_append_left _ (hmem c hc hsend)
    · obtain ⟨group, hgroup, hin⟩ := ih hc
      refine ⟨group, List.mem_cons_of_mem _ hgroup, fun active => ?_⟩
      rw [heq]
      exact List.mem_append_right _ (hin _)

/-- Nothing is sent on behalf of a queue without messages to move. -/
theorem Redriven.sendsWhile_eq_nil {active : Bool} (h : Redriven size groups cs stop)
    (hu : u ∉ groups.map Prod.fst) : sendsWhile u active cs = [] := by
  refine List.eq_nil_iff_forall_not_mem.2 fun c hc => ?_
  obtain ⟨group, hgroup, rfl, -⟩ := h.sendsOf_of_mem hc
  exact hu (List.mem_map_of_mem hgroup)

end Batch
end PartialBatch
