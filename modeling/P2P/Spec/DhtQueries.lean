import P2P.ForStd.KeyedList
import P2P.Native.DhtQueries

/-!
# Queries of the DHT and their answers

In whatever order a query is answered, cancelled, aborted and timed out, its flag drops every call
of its handler but the first, and until then its timer is armed.
-/

namespace P2P

open List PendingQuery Option

namespace PendingQuery

variable (q : PendingQuery) (outcome : QueryOutcome)

def sent : Bytes × Endpoint := (q.transactionId, q.remote)

def usage : Bytes × Bool := (q.transactionId, q.finished)

@[simp] theorem sent_complete : (q.complete outcome).sent = q.sent := by
  unfold complete
  split <;> rfl

@[simp] theorem usage_complete : (q.complete outcome).usage = q.usage := by
  unfold complete
  split <;> rfl

/-- A query by itself: the calls of its handler, its timer, and how far its coroutine is. -/
structure Once : Prop where
  calls : q.outcomes.length = if q.completed then 1 else 0
  timer : q.completed = false → q.timerArmed = true
  registered : q.finished = true → q.registered = true
  completed : q.finished = true → q.completed = true

variable {q}

theorem Once.complete (h : q.Once) : (q.complete outcome).Once := by
  unfold PendingQuery.complete
  split
  · exact h
  · rename_i hq
    have hnot : q.completed = false := by simpa using hq
    have hcalls := h.calls
    rw [hnot] at hcalls
    constructor
    · rw [length_append, hcalls]
      rfl
    · exact nofun
    · exact h.registered
    · exact fun _ => rfl

theorem mem_outcomes_complete {o : QueryOutcome} (h : o ∈ (q.complete outcome).outcomes) :
    o ∈ q.outcomes ∨ o = outcome := by
  unfold PendingQuery.complete at h
  split at h
  · exact .inl h
  · simpa using h

end PendingQuery

namespace DhtQueries

variable {s s' : DhtQueries} {e : Step}

structure Takes (s : DhtQueries) (e : Step) (s' : DhtQueries) : Prop where
  queries : s'.queries = s.queries
  pending : ∀ id i, s'.pending.get? id = some i → s.pending.get? id = some i
  calls : ∀ i outcome, (i, outcome) ∈ s'.calls → (i, outcome) ∈ s.calls ∨
    ∃ id, s.pending.get? id = some i ∧
      ∀ m, outcome = .response m → m.transactionId = id ∧ e = .response m

/-- The completion of a query is called, by its timer or as one of the outstanding calls. -/
structure Completes (s s' : DhtQueries) (i : Nat) (outcome : QueryOutcome) : Prop where
  queries : s'.queries = s.queries.modify i fun q => q.complete outcome
  pending : s'.pending = s.pending
  calls : s'.calls ⊆ s.calls
  cause : outcome = .timedOut ∨ (i, outcome) ∈ s.calls

theorem Takes.take (id : Bytes) (outcome : QueryOutcome)
    (h : ∀ m, outcome = .response m → m.transactionId = id ∧ e = .response m) :
    Takes s e (s.take id outcome) := by
  unfold DhtQueries.take
  split
  · exact ⟨rfl, fun _ _ h => h, fun _ _ => .inl⟩
  · rename_i i hi
    constructor
    · rfl
    · intro id' j hj
      exact (OrdMap.get?_erase_eq_some hj).2
    · intro j o hmem
      cases mem_append.mp hmem with
      | inl hold => exact .inl hold
      | inr hnew =>
        cases mem_singleton.mp hnew
        exact .inr ⟨id, hi, h⟩

variable {i : Nat}

theorem mem_calls_of_taken {entries : List (Bytes × Nat)} (hsub : entries ⊆ s.pending.entries)
    {ended : QueryOutcome} (hended : ∀ m, ended ≠ .response m) {outcome : QueryOutcome}
    (h : (i, outcome) ∈ s.calls ++ entries.map fun entry => (entry.2, ended)) :
    (i, outcome) ∈ s.calls ∨ ∃ id, s.pending.get? id = some i ∧
      ∀ m, outcome = .response m → m.transactionId = id ∧ e = .response m := by
  cases mem_append.mp h with
  | inl hold => exact .inl hold
  | inr hnew =>
    obtain ⟨⟨id, j⟩, hentry, heq⟩ := mem_map.mp hnew
    cases heq
    exact .inr ⟨id, s.pending.mem_entries.mp (hsub hentry), fun m hm => absurd hm (hended m)⟩

theorem Takes.cleanup : Takes s e s.cleanup := by
  constructor
  · rfl
  · intro id i hi
    change (foldl _ s.pending _).get? id = some i at hi
    rw [OrdMap.get?_foldl_erase] at hi
    split at hi
    · cases hi
    · exact hi
  · intro i outcome hmem
    refine mem_calls_of_taken (filter_subset_self _) ?_ hmem
    exact fun _ => nofun

theorem Takes.stop : Takes s e s.stop := by
  constructor
  · rfl
  · exact nofun
  · intro i outcome hmem
    refine mem_calls_of_taken (Subset.refl _) ?_ hmem
    exact fun _ => nofun

theorem step_cases (h : s.step e = some s') :
    (∃ id remote, e = .issue id remote ∧ s' = s.issue id remote) ∨
    (∃ i q, s.queries[i]? = some q ∧ q.registered = false ∧ s' = s.register i q) ∨
    Takes s e s' ∨ (∃ i outcome, Completes s s' i outcome) ∨
    (∃ i q, s.queries[i]? = some q ∧ q.registered = true ∧ q.completed = true ∧ s' = s.finish i q) ∨
    ∃ time : Nat, s' = { s with now := s.now + time } := by
  cases e with simp only [step] at h
  | issue id remote => exact .inl ⟨id, remote, rfl, (some.inj h).symm⟩
  | register i =>
    split at h
    · exact nomatch h
    · rename_i q hq
      split at h
      · exact nomatch h
      · rename_i hreg
        exact .inr (.inl ⟨i, q, hq, by simpa using hreg, (some.inj h).symm⟩)
  | response m =>
    cases h
    refine .inr (.inr (.inl (Takes.take _ _ fun m' hm' => ?_)))
    cases hm'
    exact ⟨rfl, rfl⟩
  | error m =>
    cases h
    exact .inr (.inr (.inl (Takes.take _ _ nofun)))
  | cancel i =>
    split at h
    · cases h
    · split at h
      · cases h
      · cases h
        exact .inr (.inr (.inl (Takes.take _ _ nofun)))
  | expire i =>
    split at h
    · cases h
    · split at h
      · cases h
        exact .inr (.inr (.inr (.inl ⟨i, .timedOut, rfl, rfl, fun _ => id, .inl rfl⟩)))
      · cases h
  | cleanup =>
    cases h
    exact .inr (.inr (.inl .cleanup))
  | stop =>
    cases h
    exact .inr (.inr (.inl .stop))
  | call k =>
    split at h
    · cases h
    · rename_i i outcome hcall
      cases h
      exact .inr (.inr (.inr (.inl ⟨i, outcome, rfl, rfl, eraseIdx_subset,
        .inr (mem_of_getElem? hcall)⟩)))
  | finish i =>
    split at h
    · exact nomatch h
    · rename_i q hq
      split at h
      · rename_i hguard
        exact .inr (.inr (.inr (.inr (.inl
          ⟨i, q, hq, hguard.1, hguard.2.1, (some.inj h).symm⟩))))
      · exact nomatch h
  | wait time => exact .inr (.inr (.inr (.inr (.inr ⟨time, (some.inj h).symm⟩))))

def sent (s : DhtQueries) : List (Bytes × Endpoint) := s.queries.map PendingQuery.sent

def usage (s : DhtQueries) : List (Bytes × Bool) := s.queries.map PendingQuery.usage

theorem sent_issue (id : Bytes) (remote : Endpoint) :
    (s.issue id remote).sent = s.sent ++ [(id, remote)] := by
  simp [sent, issue, PendingQuery.sent]

theorem usage_issue (id : Bytes) (remote : Endpoint) :
    (s.issue id remote).usage = s.usage ++ [(id, false)] := by
  simp [usage, issue, PendingQuery.usage]

theorem sent_register (i : Nat) (q : PendingQuery) : (s.register i q).sent = s.sent := by
  simp only [sent, register]
  apply map_key_modify
  intro q
  rfl

theorem usage_register (i : Nat) (q : PendingQuery) : (s.register i q).usage = s.usage := by
  simp only [usage, register]
  apply map_key_modify
  intro q
  rfl

theorem sent_finish (i : Nat) (q : PendingQuery) : (s.finish i q).sent = s.sent := by
  simp only [sent, finish]
  apply map_key_modify
  intro q
  rfl

theorem Takes.sent (h : Takes s e s') : s'.sent = s.sent :=
  congrArg (map PendingQuery.sent) h.queries

theorem Takes.usage (h : Takes s e s') : s'.usage = s.usage :=
  congrArg (map PendingQuery.usage) h.queries

section Completes

variable {i : Nat} {outcome : QueryOutcome}

theorem Completes.sent (h : Completes s s' i outcome) : s'.sent = s.sent := by
  unfold DhtQueries.sent
  rw [h.queries]
  exact map_key_modify (fun q => q.sent_complete outcome) s.queries i

theorem Completes.usage (h : Completes s s' i outcome) : s'.usage = s.usage := by
  unfold DhtQueries.usage
  rw [h.queries]
  exact map_key_modify (fun q => q.usage_complete outcome) s.queries i

end Completes

variable {q : PendingQuery}

theorem sent_of_query (h : s.queries[i]? = some q) :
    s.sent[i]? = some (q.transactionId, q.remote) := by
  unfold sent
  rw [getElem?_map, h]
  rfl

theorem usage_of_query (h : s.queries[i]? = some q) :
    s.usage[i]? = some (q.transactionId, q.finished) := by
  unfold usage
  rw [getElem?_map, h]
  rfl

/-- Each query by itself, and the map has queries under their own transaction ids. -/
structure Sound (s : DhtQueries) : Prop where
  once : ∀ q ∈ s.queries, q.Once
  pending : ∀ id i, s.pending.get? id = some i → ∃ remote, s.sent[i]? = some (id, remote)

theorem Sound.step (hs : Sound s) (h : s.step e = some s') : Sound s' := by
  rcases step_cases h with ⟨id, remote, -, rfl⟩ | ⟨i, q, hq, hreg, rfl⟩ | htakes |
    ⟨i, outcome, hc⟩ | ⟨i, q, hq, hreg, hcompleted, rfl⟩ | ⟨time, rfl⟩
  · constructor
    · intro q hq
      cases mem_append.mp hq with
      | inl hold => exact hs.once q hold
      | inr hnew =>
        rw [mem_singleton.mp hnew]
        exact ⟨rfl, fun _ => rfl, nofun, nofun⟩
    · intro id' i hi
      obtain ⟨remote', hsent⟩ := hs.pending id' i hi
      rw [sent_issue]
      exact ⟨remote', List.getElem?_append_left (List.getElem?_eq_some_iff.mp hsent).1 ▸ hsent⟩
  · constructor
    · intro q' hq'
      rcases mem_of_mem_modify hq' with hold | ⟨b, hb, rfl⟩
      · exact hs.once q' hold
      · have hb' := hs.once b (mem_of_getElem? hb)
        exact { hb' with registered := fun _ => rfl }
    · intro id j hj
      rw [sent_register]
      rcases OrdMap.get?_insert_eq_some hj with ⟨rfl, rfl⟩ | ⟨-, hold⟩
      · exact ⟨q.remote, sent_of_query hq⟩
      · exact hs.pending id j hold
  · constructor
    · rw [htakes.queries]
      exact hs.once
    · intro id i hi
      rw [htakes.sent]
      exact hs.pending id i (htakes.pending id i hi)
  · constructor
    · intro q hq
      rw [hc.queries] at hq
      rcases mem_of_mem_modify hq with hold | ⟨b, hb, rfl⟩
      · exact hs.once q hold
      · exact (hs.once b (mem_of_getElem? hb)).complete outcome
    · rw [hc.pending, hc.sent]
      exact hs.pending
  · constructor
    · intro q' hq'
      rcases mem_of_mem_modify hq' with hold | ⟨b, hb, rfl⟩
      · exact hs.once q' hold
      · have hbq : b = q := some.inj (hb.symm.trans hq)
        have hb' := hs.once b (mem_of_getElem? hb)
        rw [hbq] at hb' ⊢
        exact { hb' with registered := fun _ => hreg, completed := fun _ => hcompleted }
    · intro id j hj
      rw [sent_finish]
      exact hs.pending id j (OrdMap.get?_erase_eq_some hj).2
  · exact ⟨hs.once, hs.pending⟩

/-- The responses that complete queries, or will, are in the relation `R` to what was sent. -/
structure Answered (R : KrpcMessage → Bytes × Endpoint → Prop) (s : DhtQueries) : Prop where
  calls : ∀ i m, (i, .response m) ∈ s.calls → ∃ a, s.sent[i]? = some a ∧ R m a
  outcomes : ∀ q ∈ s.queries, ∀ m, .response m ∈ q.outcomes → R m q.sent

variable {R : KrpcMessage → Bytes × Endpoint → Prop}

theorem Answered.outcomes_modify (ha : Answered R s) {f : PendingQuery → PendingQuery}
    (hsent : ∀ q, (f q).sent = q.sent) (houtcomes : ∀ q, (f q).outcomes = q.outcomes) (i : Nat) :
    ∀ q ∈ s.queries.modify i f, ∀ m, .response m ∈ q.outcomes → R m q.sent := by
  intro q hq m hm
  rcases mem_of_mem_modify hq with hold | ⟨b, hb, rfl⟩
  · exact ha.outcomes q hold m hm
  · rw [hsent]
    rw [houtcomes] at hm
    exact ha.outcomes b (mem_of_getElem? hb) m hm

theorem Answered.step (ha : Answered R s) (hs : Sound s)
    (hR : ∀ m, e = .response m → ∀ i, s.pending.get? m.transactionId = some i →
      ∀ a, s.sent[i]? = some a → R m a)
    (h : s.step e = some s') : Answered R s' := by
  rcases step_cases h with ⟨id, remote, -, rfl⟩ | ⟨i, q, hq, hreg, rfl⟩ | htakes |
    ⟨i, outcome, hc⟩ | ⟨i, q, hq, hreg, hcompleted, rfl⟩ | ⟨time, rfl⟩
  · constructor
    · intro i m hm
      obtain ⟨a, hsent, ham⟩ := ha.calls i m hm
      rw [sent_issue]
      exact ⟨a, List.getElem?_append_left (List.getElem?_eq_some_iff.mp hsent).1 ▸ hsent, ham⟩
    · intro q hq m hm
      cases mem_append.mp hq with
      | inl hold => exact ha.outcomes q hold m hm
      | inr hnew =>
        rw [mem_singleton.mp hnew] at hm
        cases hm
  · constructor
    · rw [sent_register]
      exact ha.calls
    · refine ha.outcomes_modify ?_ ?_ i
      · exact fun _ => rfl
      · exact fun _ => rfl
  · constructor
    · intro i m hm
      rw [htakes.sent]
      rcases htakes.calls i _ hm with hold | ⟨id, hid, hcall⟩
      · exact ha.calls i m hold
      · obtain ⟨hmid, he⟩ := hcall m rfl
        obtain ⟨remote, hsent⟩ := hs.pending id i hid
        exact ⟨_, hsent, hR m he i (hmid ▸ hid) _ hsent⟩
    · rw [htakes.queries]
      exact ha.outcomes
  · constructor
    · intro i m hm
      rw [hc.sent]
      exact ha.calls i m (hc.calls hm)
    · intro q' hq' m hm
      rw [hc.queries] at hq'
      rcases mem_of_mem_modify hq' with hold | ⟨b, hb, rfl⟩
      · exact ha.outcomes q' hold m hm
      · rw [sent_complete]
        cases mem_outcomes_complete outcome hm with
        | inl hold => exact ha.outcomes b (mem_of_getElem? hb) m hold
        | inr hnew =>
          -- the response is the one of an outstanding call for this query
          subst hnew
          obtain ⟨a, hsent, ham⟩ := ha.calls i m (hc.cause.resolve_left nofun)
          rw [sent_of_query hb] at hsent
          cases hsent
          exact ham
  · constructor
    · rw [sent_finish]
      exact ha.calls
    · refine ha.outcomes_modify ?_ ?_ i
      · exact fun _ => rfl
      · exact fun _ => rfl
  · exact ⟨ha.calls, ha.outcomes⟩

/-- Unfinished queries have different transaction ids, and only they are pending. -/
structure Separate (s : DhtQueries) : Prop where
  pending : ∀ id i, s.pending.get? id = some i → s.usage[i]? = some (id, false)
  distinct : ∀ (i j : Nat) (id : Bytes), s.usage[i]? = some (id, false) →
    s.usage[j]? = some (id, false) → i = j

theorem usage_finish (j : Nat) :
    (s.finish i q).usage[j]? =
      if i = j then s.usage[j]?.map fun u => (u.1, true) else s.usage[j]? := by
  change (map _ (modify _ i _))[j]? = _
  unfold usage
  rw [getElem?_map, getElem?_modify, getElem?_map]
  split
  · cases s.queries[j]? <;> rfl
  · cases s.queries[j]? <;> rfl

theorem Separate.step (hp : Separate s) (hs : Sound s)
    (hfresh : ∀ id remote, e = .issue id remote → (id, false) ∉ s.usage)
    (h : s.step e = some s') : Separate s' := by
  rcases step_cases h with ⟨id, remote, he, rfl⟩ | ⟨i, q, hq, hreg, rfl⟩ | htakes |
    ⟨i, outcome, hc⟩ | ⟨i, q, hq, hreg, hcompleted, rfl⟩ | ⟨time, rfl⟩
  · constructor
    · intro id' i hi
      have husage := hp.pending id' i hi
      rw [usage_issue]
      exact List.getElem?_append_left (List.getElem?_eq_some_iff.mp husage).1 ▸ husage
    · intro i j id' hi hj
      rw [usage_issue] at hi hj
      have hfresh' := hfresh id remote he
      rw [getElem?_append] at hi hj
      split at hi <;> split at hj
      · exact hp.distinct i j id' hi hj
      · -- the new query would have a transaction id that is in use
        rw [getElem?_singleton] at hj
        split at hj
        · cases some.inj hj
          exact absurd (mem_of_getElem? hi) hfresh'
        · exact nomatch hj
      · rw [getElem?_singleton] at hi
        split at hi
        · cases some.inj hi
          exact absurd (mem_of_getElem? hj) hfresh'
        · exact nomatch hi
      · rw [getElem?_singleton] at hi hj
        split at hi <;> split at hj
        · omega
        · exact nomatch hj
        · exact nomatch hi
        · exact nomatch hi
  · constructor
    · intro id j hj
      rw [usage_register]
      rcases OrdMap.get?_insert_eq_some hj with ⟨rfl, rfl⟩ | ⟨-, hold⟩
      · -- a query that is not yet in the map is not finished
        have hfin : q.finished = false := by
          by_contra hfin
          have := (hs.once q (mem_of_getElem? hq)).registered (by simpa using hfin)
          rw [hreg] at this
          exact nomatch this
        rw [usage_of_query hq, hfin]
      · exact hp.pending id j hold
    · rw [usage_register]
      exact hp.distinct
  · constructor
    · intro id i hi
      rw [htakes.usage]
      exact hp.pending id i (htakes.pending id i hi)
    · rw [htakes.usage]
      exact hp.distinct
  · constructor
    · rw [hc.pending, hc.usage]
      exact hp.pending
    · rw [hc.usage]
      exact hp.distinct
  · constructor
    · intro id j hj
      obtain ⟨hne, hold⟩ := OrdMap.get?_erase_eq_some hj
      have husage := hp.pending id j hold
      rw [usage_finish, if_neg, husage]
      intro hij
      rw [← hij, usage_of_query hq] at husage
      exact hne (congrArg Prod.fst (some.inj husage)).symm
    · intro j k id hj hk
      rw [usage_finish] at hj hk
      split at hj <;> split at hk
      · omega
      · simp at hj
      · simp at hk
      · exact hp.distinct j k id hj hk
  · exact ⟨hp.pending, hp.distinct⟩

/-- A query is made with a transaction id that no query in progress has. -/
def FreshId (s : DhtQueries) : Step → Prop
  | .issue id _ => ∀ q ∈ s.queries, q.transactionId = id → q.finished = true
  | _ => True

/-- A response with the transaction id of a pending query comes from where that was sent. -/
def FromQueried (s : DhtQueries) : Step → Prop
  | .response m =>
    ∀ i ∈ s.pending.get? m.transactionId, ∀ q ∈ s.queries[i]?, q.remote = m.remote
  | _ => True

instance FreshId.decidable (s : DhtQueries) (e : Step) : Decidable (s.FreshId e) := by
  unfold FreshId
  split <;> infer_instance

instance FromQueried.decidable (s : DhtQueries) (e : Step) : Decidable (s.FromQueried e) := by
  unfold FromQueried
  split <;> infer_instance

/-- A step leaves the query at position `j` as it was and pending if it was, and prepares no call of
    its completion. -/
def Untouched (s s' : DhtQueries) (j : Nat) : Prop :=
  s'.queries[j]? = s.queries[j]? ∧
    (∀ id, s.pending.get? id = some j → s'.pending.get? id = some j) ∧
    ∀ outcome, (j, outcome) ∈ s'.calls → (j, outcome) ∈ s.calls

variable {es : List Step}

theorem sound_run (hrun : runSteps step es {} = some s) : Sound s :=
  runSteps_preserves (fun _ _ _ h hs => Sound.step hs h) hrun ⟨nofun, nofun⟩

theorem answered_run (ok : DhtQueries → Step → Prop)
    (hok : ∀ s m, Sound s → ok s (.response m) → ∀ i, s.pending.get? m.transactionId = some i →
      ∀ a, s.sent[i]? = some a → R m a)
    (hmeet : StepsMeet step ok es {}) (hrun : runSteps step es {} = some s) : Answered R s := by
  suffices h : Sound s ∧ Answered R s from h.2
  refine runSteps_invariant (I := fun s => Sound s ∧ Answered R s) (fun s e s' he h hs => ?_) hmeet
    hrun ⟨⟨nofun, nofun⟩, ⟨nofun, nofun⟩⟩
  refine ⟨hs.1.step h, hs.2.step hs.1 ?_ h⟩
  intro m hm
  subst hm
  exact hok s m hs.1 he

theorem transactionId_of_response (hrun : runSteps step es {} = some s) (hq : q ∈ s.queries)
    {m : KrpcMessage} (hm : .response m ∈ q.outcomes) : m.transactionId = q.transactionId := by
  have hanswered : Answered (fun m a => m.transactionId = a.1) s := by
    apply answered_run (fun _ _ => True) _ (StepsMeet.of_forall (fun _ _ => trivial) _) hrun
    intro s m hs _ i hi a ha
    obtain ⟨remote, hsent⟩ := hs.pending _ i hi
    rw [hsent] at ha
    exact congrArg Prod.fst (some.inj ha)
  exact hanswered.outcomes q hq m hm

theorem remote_of_response (hmeet : StepsMeet step FromQueried es {})
    (hrun : runSteps step es {} = some s) (hq : q ∈ s.queries) {m : KrpcMessage}
    (hm : .response m ∈ q.outcomes) : m.remote = q.remote := by
  have hanswered : Answered (fun m a => m.remote = a.2) s := by
    apply answered_run _ _ hmeet hrun
    intro s m _ hok i hi a ha
    unfold sent at ha
    rw [getElem?_map] at ha
    obtain ⟨q, hq, rfl⟩ := map_eq_some_iff.mp ha
    exact (hok i hi q hq).symm
  exact hanswered.outcomes q hq m hm

theorem separate_run (hmeet : StepsMeet step FreshId es {}) (hrun : runSteps step es {} = some s) :
    Separate s := by
  suffices h : Sound s ∧ Separate s from h.2
  refine runSteps_invariant (I := fun s => Sound s ∧ Separate s) (fun s e s' he h hs => ?_) hmeet
    hrun ⟨⟨nofun, nofun⟩, ⟨nofun, nofun⟩⟩
  refine ⟨hs.1.step h, hs.2.step hs.1 ?_ h⟩
  intro id remote hissue hmem
  subst hissue
  obtain ⟨q, hq, husage⟩ := mem_map.mp hmem
  have hfinished := he q hq (congrArg Prod.fst husage)
  rw [show q.finished = false from congrArg Prod.snd husage] at hfinished
  cases hfinished

theorem exists_expire (hs : Sound s) (hq : s.queries[i]? = some q) (hnone : q.outcomes = [])
    {time : Nat} (htime : q.expiry ≤ s.now + time) :
    ∃ s' q', runSteps step [.wait time, .expire i] s = some s' ∧
      s'.queries[i]? = some q' ∧ q'.outcomes = [.timedOut] := by
  have honce := hs.once q (mem_of_getElem? hq)
  have hnot : q.completed = false := by
    have hcalls := honce.calls
    rw [hnone] at hcalls
    cases hc : q.completed with
    | false => rfl
    | true => rw [hc] at hcalls; exact nomatch hcalls
  let later : DhtQueries := { s with now := s.now + time }
  have hstep : later.step (.expire i) = some (later.complete i .timedOut) := by
    simp only [step, later, hq]
    rw [if_pos ⟨honce.timer hnot, htime⟩]
  refine ⟨later.complete i .timedOut, q.complete .timedOut, ?_, ?_, ?_⟩
  · change (later.step (.expire i)).bind some = _
    rw [hstep, bind_some]
  · change (modify _ i _)[i]? = _
    rw [getElem?_modify, hq]
    simp
  · unfold PendingQuery.complete
    rw [hnot, hnone]
    rfl

section

variable (hp : Separate s) (hq : s.queries[i]? = some q) (hfinished : q.finished = false)

include hp hq hfinished

theorem Separate.untouched_take (outcome : QueryOutcome) {j : Nat} (hj : j ≠ i) :
    Untouched s (s.take q.transactionId outcome) j := by
  have husage := usage_of_query hq
  rw [hfinished] at husage
  unfold take
  split
  · exact ⟨rfl, fun _ h => h, fun _ h => h⟩
  · rename_i k hk
    have hki : k = i := hp.distinct k i _ (hp.pending _ k hk) husage
    refine ⟨rfl, fun id hid => ?_, fun o ho => ?_⟩
    · change (s.pending.erase _).get? id = _
      rw [OrdMap.get?_erase, if_neg, hid]
      intro heq
      rw [heq, hk] at hid
      exact hj ((some.inj hid).symm.trans hki)
    · cases mem_append.mp ho with
      | inl hold => exact hold
      | inr hnew => exact absurd ((congrArg Prod.fst (mem_singleton.mp hnew)).trans hki) hj

theorem Separate.untouched_finish {j : Nat} (hj : j ≠ i) : Untouched s (s.finish i q) j := by
  have husage := usage_of_query hq
  rw [hfinished] at husage
  refine ⟨?_, fun id hid => ?_, fun _ h => h⟩
  · change (modify _ i _)[j]? = _
    rw [getElem?_modify]
    simp [Ne.symm hj]
  · change (s.pending.erase _).get? id = _
    rw [OrdMap.get?_erase, if_neg, hid]
    intro heq
    rw [heq] at hid
    exact hj (hp.distinct j i _ (hp.pending _ j hid) husage)

end

/-- **Queries and their answers.** In every run the handler of a query is called at most once, was
    called when its coroutine goes on, and otherwise its timer can still call it. -/
theorem dht_queries_matched (hrun : runSteps step es {} = some s) :
    (∀ i q, s.queries[i]? = some q →
      q.outcomes.length ≤ 1 ∧ (q.finished = true → q.outcomes.length = 1) ∧
      (q.outcomes = [] → ∀ time : Nat, q.expiry ≤ s.now + time →
        ∃ s' q', runSteps step [.wait time, .expire i] s = some s' ∧
          s'.queries[i]? = some q' ∧ q'.outcomes = [.timedOut]) ∧
      ∀ m, .response m ∈ q.outcomes → m.transactionId = q.transactionId ∧
        (StepsMeet step FromQueried es {} → m.remote = q.remote)) ∧
    (StepsMeet step FreshId es {} →
      ∀ i s', s.step (.finish i) = some s' ∨ s.step (.cancel i) = some s' →
        ∀ j, j ≠ i → Untouched s s' j) := by
  have hs := sound_run hrun
  constructor
  · intro i q hq
    have hmem := mem_of_getElem? hq
    have honce := hs.once q hmem
    refine ⟨?_, fun hfinished => ?_, fun hnone time htime => exists_expire hs hq hnone htime,
      fun m hm => ⟨transactionId_of_response hrun hmem hm,
        fun hmeet => remote_of_response hmeet hrun hmem hm⟩⟩
    · rw [honce.calls]
      split <;> omega
    · rw [honce.calls, honce.completed hfinished]
      rfl
  · intro hmeet i s' h j hj
    have hp := separate_run hmeet hrun
    cases h with
    | inl hfinish =>
      simp only [step] at hfinish
      split at hfinish
      · cases hfinish
      · rename_i q hq
        split at hfinish
        · rename_i hguard
          cases hfinish
          exact hp.untouched_finish hq hguard.2.2 hj
        · cases hfinish
    | inr hcancel =>
      simp only [step] at hcancel
      split at hcancel
      · cases hcancel
      · rename_i q hq
        split at hcancel
        · cases hcancel
        · rename_i hguard
          cases hcancel
          exact hp.untouched_take hq (by simpa using hguard) _ hj

theorem dht_queries_matched_two :
    let first : Endpoint := ⟨⟨10, 0, 0, 1⟩, 6881⟩
    let second : Endpoint := ⟨⟨10, 0, 0, 2⟩, 6881⟩
    let es : List Step :=
      [.issue [1, 1] first, .register 0, .issue [1, 2] second, .register 1,
        .response ⟨[1, 1], first, []⟩, .call 0]
    ∃ s, runSteps step es {} = some s ∧ StepsMeet step FreshId es {} ∧
      StepsMeet step FromQueried es {} ∧
      (∀ (i : Nat) (q : PendingQuery), s.queries[i]? = some q →
        ∀ m, .response m ∈ q.outcomes → m.remote = q.remote) ∧
      ∃ s', s.step (.finish 0) = some s' ∧ Untouched s s' 1 := by
  intro first second es
  have hrun : runSteps step es {} = some _ := rfl
  have hfresh : StepsMeet step FreshId es {} := by decide
  have hfrom : StepsMeet step FromQueried es {} := by decide
  obtain ⟨hquery, hend⟩ := dht_queries_matched hrun
  exact ⟨_, hrun, hfresh, hfrom, fun i q hq m hm => ((hquery i q hq).2.2.2 m hm).2 hfrom,
    _, rfl, hend hfresh 0 _ (.inl rfl) 1 (by decide)⟩

/-- A stranger's response completes a query, and a query that ends takes away the entry of another
    one with its transaction id, or aborts it. -/
theorem dht_queries_confused :
    let queried : Endpoint := ⟨⟨10, 0, 0, 1⟩, 6881⟩
    let other : Endpoint := ⟨⟨10, 0, 0, 2⟩, 6881⟩
    let two : List Step :=
      [.issue [1, 1] queried, .register 0, .wait (5 * 10 ^ 9), .issue [1, 1] other, .register 1]
    (∃ s, runSteps step [.issue [1, 1] queried, .register 0, .response ⟨[1, 1], other, []⟩,
          .call 0] {} = some s ∧
        s.queries.map (fun q => (q.remote, q.outcomes)) =
          [(queried, [.response ⟨[1, 1], other, []⟩])]) ∧
      (∃ s s', runSteps step (two ++ [.wait (6 * 10 ^ 9), .expire 0]) {} = some s ∧
        s.step (.finish 0) = some s' ∧ s.pending.get? [1, 1] = some 1 ∧
        s'.pending.get? [1, 1] = none) ∧
      ∃ s s', runSteps step (two ++ [.wait (5 * 10 ^ 9)]) {} = some s ∧
        s.step (.cancel 0) = some s' ∧ s.pending.get? [1, 1] = some 1 ∧
        s'.calls = [(1, .aborted)] := by
  intro queried other two
  refine ⟨⟨_, rfl, rfl⟩, ⟨_, _, rfl, rfl, ?_, ?_⟩, ⟨_, _, rfl, rfl, ?_, ?_⟩⟩
  all_goals decide

end DhtQueries

end P2P
