import Mathlib.Data.List.Dedup
import P2P.Native.DhtLookup
import P2P.Spec.ClosestNodes

/-!
# What the lookups query and find

`find_nodes` puts all new nodes of a round into `queried_nodes` before it cuts off the queue.
-/

namespace P2P

open List FindNodes

open RouteTable (idOf entryOf)

/-! ## What a run has asked and heard -/

def QueryReply.listed (q : QueryReply) : List BucketEntry :=
  match q.ending with
  | .response response =>
    match FindRound.parseResponse response with
    | .ok (_, compactNodes) => fromCompactNodeInfo compactNodes q.now
    | .error _ => []
  | _ => []

def queriedIds (rounds : List (List QueryReply)) : List NodeId := rounds.flatten.map (·.node.id)

def discoveredIds (myNodeId : NodeId) (rounds : List (List QueryReply)) : List NodeId :=
  ((rounds.flatten.flatMap (·.listed)).map (·.id)).filter (· ≠ myNodeId)

def unqueriedIds (myNodeId : NodeId) (rounds : List (List QueryReply)) : List NodeId :=
  ((discoveredIds myNodeId rounds).filter (· ∉ queriedIds rounds)).dedup

section Ids

variable {myNodeId id : NodeId} {rounds : List (List QueryReply)} {replies : List QueryReply}

theorem queriedIds_concat :
    queriedIds (rounds ++ [replies]) = queriedIds rounds ++ replies.map (·.node.id) := by
  simp [queriedIds]

theorem mem_discoveredIds_concat :
    id ∈ discoveredIds myNodeId (rounds ++ [replies]) ↔
      id ∈ discoveredIds myNodeId rounds ∨
        (id ∈ (replies.flatMap (·.listed)).map (·.id) ∧ id ≠ myNodeId) := by
  simp only [discoveredIds, flatten_concat, flatMap_append, map_append,
    filter_append, mem_append, mem_filter, decide_eq_true_eq]

theorem mem_unqueriedIds :
    id ∈ unqueriedIds myNodeId rounds ↔
      id ∈ discoveredIds myNodeId rounds ∧ id ∉ queriedIds rounds := by
  rw [unqueriedIds, mem_dedup, mem_filter, decide_eq_true_eq]

theorem nodup_unqueriedIds : (unqueriedIds myNodeId rounds).Nodup := nodup_dedup _

theorem map_id_perm {nodes : List BucketEntry} (h : (replies.map (·.node)).Perm nodes) :
    (replies.map (·.node.id)).Perm (nodes.map (·.id)) := by
  have hids := h.map (·.id)
  rw [map_map] at hids
  exact hids

end Ids

theorem nodup_id_of_increasing {l : List BucketEntry} {target : NodeId}
    (h : l.Increasing (·.distanceTo target)) : (l.map (·.id)).Nodup := by
  have hnodup := h.nodup
  have hmap : l.map (·.distanceTo target) = (l.map (·.id)).map fun id => distance id target := by
    rw [map_map]
    rfl
  rw [hmap] at hnodup
  exact hnodup.of_map _

/-! ## A round of `find_nodes` -/

namespace FindNodes

variable {myNodeId target : NodeId} {count : Nat} {s s' : FindNodes} {replies : List QueryReply}

theorem discovered_query (queriedNodes : List NodeId) (r : FindRound) (q : QueryReply) :
    (r.query myNodeId queriedNodes q).discovered =
      r.discovered ++ q.listed.filter fun n => n.id ≠ myNodeId ∧ n.id ∉ queriedNodes := by
  unfold FindRound.query QueryReply.listed
  cases q.ending with
  | notSent | timeout | failed => simp [FindRound.markBad]
  | response response =>
    dsimp only
    cases FindRound.parseResponse response with
    | error e => simp [FindRound.markBad]
    | ok parsed => rfl

theorem discovered_foldl_query (queriedNodes : List NodeId) (r : FindRound)
    (replies : List QueryReply) :
    (replies.foldl (FindRound.query myNodeId queriedNodes) r).discovered =
      r.discovered ++ (replies.flatMap (·.listed)).filter fun n =>
        n.id ≠ myNodeId ∧ n.id ∉ queriedNodes := by
  induction replies generalizing r with
  | nil => simp
  | cons q replies ih =>
    rw [foldl_cons, ih, discovered_query, flatMap_cons, filter_append, append_assoc]

def discovered (myNodeId : NodeId) (s : FindNodes) (replies : List QueryReply) :
    List BucketEntry :=
  (replies.flatMap (·.listed)).filter fun n => n.id ≠ myNodeId ∧ n.id ∉ s.queriedNodes

def fresh (myNodeId : NodeId) (s : FindNodes) (replies : List QueryReply) : List BucketEntry :=
  (discovered myNodeId s replies).foldl (List.pushNew (·.id)) []

theorem nodup_fresh (myNodeId : NodeId) (s : FindNodes) (replies : List QueryReply) :
    ((fresh myNodeId s replies).map (·.id)).Nodup :=
  nodup_foldl_pushNew (by simp) _

theorem mem_discovered {n : BucketEntry} :
    n ∈ discovered myNodeId s replies ↔
      n ∈ replies.flatMap (·.listed) ∧ n.id ≠ myNodeId ∧ n.id ∉ s.queriedNodes := by
  simp [discovered]

theorem mem_map_fresh {id : NodeId} :
    id ∈ (fresh myNodeId s replies).map (·.id) ↔
      id ∈ (replies.flatMap (·.listed)).map (·.id) ∧ id ≠ myNodeId ∧ id ∉ s.queriedNodes := by
  rw [fresh, key_mem_foldl_pushNew]
  constructor
  · intro h
    obtain ⟨n, hn, rfl⟩ := mem_map.mp (h.resolve_left (by simp))
    have hmem := mem_discovered.mp hn
    exact ⟨mem_map_of_mem hmem.1, hmem.2⟩
  · rintro ⟨hlisted, hother⟩
    obtain ⟨n, hn, rfl⟩ := mem_map.mp hlisted
    exact .inr (mem_map_of_mem (mem_discovered.mpr ⟨hn, hother⟩))

theorem foldl_enqueue {nodes : List BucketEntry} (queue : List BucketEntry)
    {known : List NodeId} (queried : List NodeId) (hnew : ∀ n ∈ nodes, n.id ∉ known)
    (hqueried : ∀ id, id ∈ queried ↔ id ∈ known ∨ id ∈ queue.map (·.id)) :
    (nodes.foldl enqueue (queue, queried)).1 = nodes.foldl (pushNew (·.id)) queue ∧
      ∀ id, id ∈ (nodes.foldl enqueue (queue, queried)).2 ↔
        id ∈ known ∨ id ∈ (nodes.foldl (pushNew (·.id)) queue).map (·.id) := by
  induction nodes generalizing queue queried with
  | nil => exact ⟨rfl, hqueried⟩
  | cons n nodes ih =>
    have hn : n.id ∈ queried ↔ n.id ∈ queue.map (·.id) := by
      rw [hqueried]
      exact ⟨fun h => h.resolve_left (hnew n mem_cons_self), .inr⟩
    have hrest : ∀ m ∈ nodes, m.id ∉ known := fun m hm => hnew m (mem_cons_of_mem _ hm)
    rw [foldl_cons, foldl_cons]
    by_cases hold : n.id ∈ queried
    · rw [enqueue, if_pos hold, pushNew, if_pos (hn.mp hold)]
      exact ih queue queried hrest hqueried
    · rw [enqueue, if_neg hold, pushNew, if_neg (mt hn.mpr hold)]
      apply ih _ _ hrest
      intro id
      rw [mem_cons, hqueried, map_append, mem_append, map_singleton, mem_singleton]
      tauto

structure Stepped (myNodeId target : NodeId) (count : Nat) (s : FindNodes)
    (replies : List QueryReply) (s' : FindNodes) : Prop where
  round_lt : s.i < 3
  i_eq : s'.i = s.i + 1
  asked : (replies.map (·.node)).Perm s.nodesToQuery
  result_eq : s'.result = (((discovered myNodeId s replies).foldl (List.pushNew (·.id))
    s.result).sortBy (·.distanceTo target)).take count
  queue_eq : s'.nodesToQuery =
    ((fresh myNodeId s replies).sortBy (·.distanceTo target)).take alpha
  mem_queriedNodes : ∀ id, id ∈ s'.queriedNodes ↔
    id ∈ s.queriedNodes ∨ id ∈ (fresh myNodeId s replies).map (·.id)

theorem step_spec (h : step myNodeId target count s replies = some s') :
    Stepped myNodeId target count s replies s' := by
  unfold step at h
  split at h
  · next hguard =>
    have hround : (replies.foldl (FindRound.query myNodeId s.queriedNodes)
        ⟨s.routingTable, []⟩).discovered = discovered myNodeId s replies := by
      rw [discovered_foldl_query, nil_append, discovered]
    have hnew : ∀ n ∈ discovered myNodeId s replies, n.id ∉ s.queriedNodes :=
      fun n hn => (mem_discovered.mp hn).2.2
    obtain ⟨hqueue, hqueried⟩ := foldl_enqueue [] s.queriedNodes hnew (by simp)
    dsimp only at h
    rw [hround] at h
    cases h
    refine ⟨hguard.1, rfl, hguard.2.2, rfl, ?_, hqueried⟩
    dsimp only
    rw [hqueue, fresh]
  · cases h

/-! ## Bounds for `find_nodes` -/

/-- What holds at the head of the loop, after some rounds. -/
structure Bounded (myNodeId target : NodeId) (count : Nat) (rounds : List (List QueryReply))
    (s : FindNodes) : Prop where
  nodup : (queriedIds rounds ++ s.nodesToQuery.map (·.id)).Nodup
  known : ∀ id ∈ queriedIds rounds ++ s.nodesToQuery.map (·.id), id ∈ s.queriedNodes
  other : ∀ id ∈ queriedIds rounds ++ s.nodesToQuery.map (·.id), id ≠ myNodeId
  queue_le : s.nodesToQuery.length ≤ alpha
  queried_le : (queriedIds rounds).length ≤ s.i * alpha
  i_le : s.i ≤ 3
  result_le : s.result.length ≤ count
  result_increasing : s.result.Increasing (·.distanceTo target)
  result_other : ∀ e ∈ s.result, e.id ≠ myNodeId

theorem bounded_start (myNodeId : NodeId) (rt : RouteTable) (target : NodeId) (count : Nat) :
    Bounded myNodeId target count [] (start myNodeId rt target count) := by
  have hfound := rt.findClosestNodes_smallest target count
  have hnodup : (((rt.findClosestNodes target count).filter fun e =>
      e.id ≠ myNodeId ∧ e.status ≠ .bad).map (·.id)).Nodup :=
    (nodup_id_of_increasing hfound.increasing).sublist (filter_sublist.map _)
  have hincreasing : (start myNodeId rt target count).result.Increasing (·.distanceTo target) :=
    increasing_sortBy (nodup_distanceTo hnodup target)
  have hother : ∀ e ∈ (start myNodeId rt target count).result, e.id ≠ myNodeId := by
    intro e he
    have hmem := (mem_filter.mp (mem_sortBy.mp he)).2
    simp only [decide_eq_true_eq] at hmem
    exact hmem.1
  have hqueue : ∀ id ∈ (start myNodeId rt target count).nodesToQuery.map (·.id), id ≠ myNodeId := by
    intro id hid
    obtain ⟨e, he, rfl⟩ := mem_map.mp hid
    exact hother e (mem_of_mem_take he)
  exact {
    nodup := nodup_id_of_increasing (hincreasing.take alpha)
    known := fun id hid => hid
    other := hqueue
    queue_le := length_take_le _ _
    queried_le := Nat.zero_le _
    i_le := Nat.zero_le _
    result_le := by
      have hlen := hfound.length_eq
      have hfilter := length_filter_le (fun e : BucketEntry =>
        decide (e.id ≠ myNodeId ∧ e.status ≠ .bad)) (rt.findClosestNodes target count)
      have hsort := (sortBy_perm (·.distanceTo target)
        ((rt.findClosestNodes target count).filter fun e =>
          e.id ≠ myNodeId ∧ e.status ≠ .bad)).length_eq
      show (sortBy _ _).length ≤ count
      omega
    result_increasing := hincreasing
    result_other := hother }

variable {rounds : List (List QueryReply)}

theorem Bounded.step (h : Bounded myNodeId target count rounds s)
    (hstep : step myNodeId target count s replies = some s') :
    Bounded myNodeId target count (rounds ++ [replies]) s' := by
  have hs := step_spec hstep
  have hasked := map_id_perm hs.asked
  have hqueue : ∀ id ∈ s'.nodesToQuery.map (·.id), id ∈ (fresh myNodeId s replies).map (·.id) := by
    rw [hs.queue_eq]
    intro id hid
    obtain ⟨n, hn, rfl⟩ := mem_map.mp hid
    exact mem_map_of_mem (mem_sortBy.mp (mem_of_mem_take hn))
  -- the ids that have been queried now are those that were in the queue before
  have hqueried : (queriedIds (rounds ++ [replies])).Perm
      (queriedIds rounds ++ s.nodesToQuery.map (·.id)) := by
    rw [queriedIds_concat]
    exact hasked.append_left _
  have hresult : (((discovered myNodeId s replies).foldl (pushNew (·.id)) s.result).map
      (·.id)).Nodup :=
    nodup_foldl_pushNew (nodup_id_of_increasing h.result_increasing) _
  exact {
    nodup := by
      rw [nodup_append]
      refine ⟨hqueried.nodup_iff.mpr h.nodup, ?_, ?_⟩
      · rw [hs.queue_eq]
        have hsorted := increasing_sortBy (nodup_distanceTo (nodup_fresh myNodeId s replies) target)
        exact nodup_id_of_increasing (hsorted.take alpha)
      · intro id hold id' hnew heq
        subst heq
        exact (mem_map_fresh.mp (hqueue id hnew)).2.2 (h.known id (hqueried.mem_iff.mp hold))
    known := by
      intro id hid
      rw [hs.mem_queriedNodes]
      cases mem_append.mp hid with
      | inl hold => exact .inl (h.known id (hqueried.mem_iff.mp hold))
      | inr hnew => exact .inr (hqueue id hnew)
    other := by
      intro id hid
      cases mem_append.mp hid with
      | inl hold => exact h.other id (hqueried.mem_iff.mp hold)
      | inr hnew => exact (mem_map_fresh.mp (hqueue id hnew)).2.1
    queue_le := by
      rw [hs.queue_eq]
      exact length_take_le _ _
    queried_le := by
      rw [hqueried.length_eq, length_append, length_map, hs.i_eq, Nat.succ_mul]
      exact Nat.add_le_add h.queried_le h.queue_le
    i_le := by
      rw [hs.i_eq]
      exact hs.round_lt
    result_le := by
      rw [hs.result_eq]
      exact length_take_le _ _
    result_increasing := by
      rw [hs.result_eq]
      exact (increasing_sortBy (nodup_distanceTo hresult target)).take count
    result_other := by
      rw [hs.result_eq]
      intro e he
      have hmem := mem_sortBy.mp (mem_of_mem_take he)
      cases mem_of_mem_foldl_pushNew hmem with
      | inl hold => exact h.result_other e hold
      | inr hnew => exact (mem_discovered.mp hnew).2.1 }

theorem bounded_run (myNodeId : NodeId) (rt : RouteTable) (target : NodeId) (count : Nat)
    (hrun : runSteps (step myNodeId target count) rounds (start myNodeId rt target count)
      = some s) : Bounded myNodeId target count rounds s :=
  runSteps_history_preserves (fun _ _ _ _ hstep h => h.step hstep) hrun (bounded_start ..)

/-! ## The queue of `find_nodes` -/

/-- When nothing was cut off: `pending` are the ids discovered and not queried, and the queue has
    the closest. -/
structure Frontier (myNodeId target : NodeId) (rounds : List (List QueryReply)) (s : FindNodes)
    (pending : List NodeId) : Prop where
  queue : List.Smallest (fun id => distance id target) alpha pending (s.nodesToQuery.map (·.id))
  mem_queriedNodes : ∀ id, id ∈ s.queriedNodes ↔ id ∈ queriedIds rounds ∨ id ∈ pending
  discovered : ∀ id ∈ discoveredIds myNodeId rounds, id ∈ queriedIds rounds ∨ id ∈ pending

theorem frontier_start (myNodeId : NodeId) (rt : RouteTable) (target : NodeId) (count : Nat) :
    Frontier myNodeId target [] (start myNodeId rt target count)
      ((start myNodeId rt target count).nodesToQuery.map (·.id)) := by
  have hbounded := bounded_start myNodeId rt target count
  refine ⟨Smallest.map (.self (hbounded.result_increasing.take alpha) hbounded.queue_le), ?_, nofun⟩
  intro id
  exact ⟨.inr, fun h => h.resolve_left (by simp [queriedIds])⟩

theorem Frontier.step {pending : List NodeId} (h : Frontier myNodeId target rounds s pending)
    (hall : pending.length ≤ alpha) (hstep : step myNodeId target count s replies = some s') :
    Frontier myNodeId target (rounds ++ [replies]) s' ((fresh myNodeId s replies).map (·.id)) ∧
      ((fresh myNodeId s replies).map (·.id)).Perm
        (unqueriedIds myNodeId (rounds ++ [replies])) := by
  have hs := step_spec hstep
  -- nothing has been cut off, so the queries of the round went to all pending nodes
  have hasked : (replies.map (·.node.id)).Perm pending :=
    (map_id_perm hs.asked).trans (h.queue.perm hall)
  have hqueried : ∀ id, id ∈ queriedIds (rounds ++ [replies]) ↔ id ∈ s.queriedNodes := by
    intro id
    rw [queriedIds_concat, mem_append, hasked.mem_iff, h.mem_queriedNodes]
  have hfrontier : Frontier myNodeId target (rounds ++ [replies]) s'
      ((fresh myNodeId s replies).map (·.id)) := by
    refine ⟨?_, ?_, ?_⟩
    · rw [hs.queue_eq]
      apply Smallest.map
      exact .take_sortBy (nodup_distanceTo (nodup_fresh ..) target) alpha
    · intro id
      rw [hs.mem_queriedNodes, hqueried]
    · intro id hid
      rw [hqueried, mem_map_fresh]
      cases mem_discoveredIds_concat.mp hid with
      | inl hold => exact .inl ((h.mem_queriedNodes id).mpr (h.discovered id hold))
      | inr hnew =>
        by_cases hmem : id ∈ s.queriedNodes
        · exact .inl hmem
        · exact .inr ⟨hnew.1, hnew.2, hmem⟩
  refine ⟨hfrontier, ?_⟩
  rw [perm_ext_iff_of_nodup (nodup_fresh ..) nodup_unqueriedIds]
  intro id
  rw [mem_unqueriedIds]
  constructor
  · intro hid
    obtain ⟨hlisted, hother, hnew⟩ := mem_map_fresh.mp hid
    exact ⟨mem_discoveredIds_concat.mpr (.inr ⟨hlisted, hother⟩), mt (hqueried id).mp hnew⟩
  · intro hid
    exact (hfrontier.discovered id hid.1).resolve_left hid.2

/-- No round but perhaps the last one has found more new nodes than can be queried at once. -/
def NothingCutOff (myNodeId : NodeId) (rounds : List (List QueryReply)) : Prop :=
  ∀ first rest, rounds = first ++ rest → rest ≠ [] →
    (unqueriedIds myNodeId first).length ≤ alpha

theorem NothingCutOff.of_concat (h : NothingCutOff myNodeId (rounds ++ [replies])) :
    NothingCutOff myNodeId rounds ∧ (unqueriedIds myNodeId rounds).length ≤ alpha := by
  refine ⟨?_, h rounds [replies] rfl (by simp)⟩
  intro first rest hsplit _
  apply h first (rest ++ [replies])
  · rw [hsplit, append_assoc]
  · simp

theorem frontier_run (myNodeId : NodeId) (rt : RouteTable) (target : NodeId) (count : Nat)
    (hrun : runSteps (step myNodeId target count) rounds (start myNodeId rt target count)
      = some s)
    (hcut : NothingCutOff myNodeId rounds) :
    ∃ pending, Frontier myNodeId target rounds s pending ∧
      (rounds = [] ∧ pending.length ≤ alpha ∨ pending.Perm (unqueriedIds myNodeId rounds)) := by
  refine runSteps_history_preserves (I := fun rounds s => NothingCutOff myNodeId rounds →
    ∃ pending, Frontier myNodeId target rounds s pending ∧
      (rounds = [] ∧ pending.length ≤ alpha ∨ pending.Perm (unqueriedIds myNodeId rounds)))
    ?_ hrun ?_ hcut
  · intro rounds s replies s' hstep ih hcut
    obtain ⟨hbefore, hlen⟩ := hcut.of_concat
    obtain ⟨pending, hfrontier, hpending⟩ := ih hbefore
    have hall : pending.length ≤ alpha := by
      cases hpending with
      | inl hfirst => exact hfirst.2
      | inr hperm =>
        rw [hperm.length_eq]
        exact hlen
    obtain ⟨hnext, hperm⟩ := hfrontier.step hall hstep
    exact ⟨_, hnext, .inr hperm⟩
  · intro _
    refine ⟨_, frontier_start myNodeId rt target count, .inl ⟨rfl, ?_⟩⟩
    rw [length_map]
    exact (bounded_start myNodeId rt target count).queue_le

end FindNodes

/-- In every round of `find_nodes` after the first, the closest of the listed and unqueried nodes
    are queried, at most `ALPHA`, if nothing was cut off before the last round. -/
theorem find_nodes_converges (myNodeId : NodeId) (rt : RouteTable) (target : NodeId) (count : Nat)
    {before : List (List QueryReply)} {next : List QueryReply} {s : FindNodes}
    (hrun : runSteps (FindNodes.step myNodeId target count) (before ++ [next])
      (FindNodes.start myNodeId rt target count) = some s)
    (hlater : before ≠ []) (hcut : FindNodes.NothingCutOff myNodeId before) :
    ∃ closest, (next.map (·.node.id)).Perm closest ∧
      List.Smallest (fun id => distance id target) alpha
        (unqueriedIds myNodeId before) closest := by
  rw [runSteps_append] at hrun
  obtain ⟨t, hbefore, hnext⟩ := Option.bind_eq_some_iff.mp hrun
  obtain ⟨t', hstep, -⟩ := Option.bind_eq_some_iff.mp hnext
  obtain ⟨pending, hfrontier, hpending⟩ :=
    frontier_run myNodeId rt target count hbefore hcut
  have hperm : pending.Perm (unqueriedIds myNodeId before) :=
    hpending.resolve_left fun hfirst => hlater hfirst.1
  exact ⟨_, map_id_perm (step_spec hstep).asked, hfrontier.queue.of_perm hperm⟩

def oneNodeTable : RouteTable := (RouteTable.new (idOf 0) 0).insert (entryOf 128 .good) 1

theorem closest_oneNodeTable : oneNodeTable.findClosestNodes (idOf 0) 8 = [entryOf 128 .good] := by
  have hgather : oneNodeTable.gather (idOf 0) 8 = [entryOf 128 .good] := by decide +kernel
  show (mergeSort (oneNodeTable.gather (idOf 0) 8) _).take 8 = _
  rw [hgather, mergeSort_singleton]
  rfl

theorem start_oneNodeTable :
    start (idOf 0) oneNodeTable (idOf 0) 8 =
      ⟨oneNodeTable, [entryOf 128 .good], [entryOf 128 .good], [idOf 128], 0⟩ := by
  unfold start
  rw [closest_oneNodeTable]
  rfl

def answerOf (node : BucketEntry) (found : List BucketEntry) (now : Int) : QueryReply :=
  ⟨node, .response (krpcResponse (.ascii "aa") [(.ascii "id", .str node.id.val),
    (.ascii "nodes", .str (toCompactNodeInfo found))]), now⟩

def listedNode (first : UInt8) (now : Int) : BucketEntry :=
  { entryOf first .questionable with lastSeen := now, lastReplied := now }

theorem find_nodes_converges_two :
    ∃ closest, ([idOf 2, idOf 1] : List NodeId).Perm closest ∧
      List.Smallest (fun id => distance id (idOf 0)) alpha
        (unqueriedIds (idOf 0) [[answerOf (entryOf 128 .good) [listedNode 2 0, listedNode 1 0] 2]])
        closest := by
  have hrun : ((runSteps (step (idOf 0) (idOf 0) 8)
      ([[answerOf (entryOf 128 .good) [listedNode 2 0, listedNode 1 0] 2]] ++
        [[⟨listedNode 2 2, .timeout, 3⟩, ⟨listedNode 1 2, .timeout, 4⟩]])
      (start (idOf 0) oneNodeTable (idOf 0) 8)).map (·.i)) = some 2 := by
    rw [start_oneNodeTable]
    decide +kernel
  obtain ⟨s, hs, -⟩ := Option.map_eq_some_iff.mp hrun
  refine find_nodes_converges (idOf 0) oneNodeTable (idOf 0) 8 hs (by simp) ?_
  intro first rest hsplit hrest
  have hfirst : first = [] := by
    have hlen := congrArg length hsplit
    have hpos := length_pos_iff.mpr hrest
    simp only [length_cons, length_nil, length_append] at hlen
    exact length_eq_zero_iff.mp (by omega)
  rw [hfirst]
  decide

/-- The first answer lists four nodes. Three of them are queried, and in the third round the node
    with the id 9, but not the node with the id 4, which is closer. -/
theorem find_nodes_skips_closer_node :
    ∃ before next s,
      runSteps (FindNodes.step (idOf 0) (idOf 0) 8) (before ++ [next])
        (FindNodes.start (idOf 0) oneNodeTable (idOf 0) 8) = some s ∧
      before ≠ [] ∧ next.map (·.node.id) = [idOf 9] ∧
      unqueriedIds (idOf 0) before = [idOf 4, idOf 9] ∧
      ¬ ∃ closest, (next.map (·.node.id)).Perm closest ∧
        List.Smallest (fun id => distance id (idOf 0)) alpha (unqueriedIds (idOf 0) before)
          closest := by
  let first := [answerOf (entryOf 128 .good)
    [listedNode 1 0, listedNode 2 0, listedNode 3 0, listedNode 4 0] 2]
  let second := [answerOf (listedNode 1 2) [listedNode 9 0] 3, ⟨listedNode 2 2, .timeout, 4⟩,
    ⟨listedNode 3 2, .timeout, 4⟩]
  have hrun : ((runSteps (step (idOf 0) (idOf 0) 8)
      ([first, second] ++ [[⟨listedNode 9 3, .timeout, 5⟩]])
      (start (idOf 0) oneNodeTable (idOf 0) 8)).map (·.i)) = some 3 := by
    rw [start_oneNodeTable]
    decide +kernel
  have hunqueried : unqueriedIds (idOf 0) [first, second] = [idOf 4, idOf 9] := by decide +kernel
  obtain ⟨s, hs, -⟩ := Option.map_eq_some_iff.mp hrun
  refine ⟨_, _, s, hs, by simp, rfl, hunqueried, ?_⟩
  rintro ⟨closest, hperm, hsmallest⟩
  have hlen := hsmallest.length_eq
  rw [hunqueried, ← hperm.length_eq] at hlen
  exact absurd hlen (by decide)

/-! ## A round of `get_peers` -/

namespace GetPeers

variable {myNodeId infoHash : NodeId} {count : Nat} {s s' : GetPeers} {replies : List QueryReply}

theorem nodup_addStored {now : Int} {discovered : List Endpoint} (h : discovered.Nodup)
    (peers : List PeerInfo) : (addStored count now discovered peers).1.Nodup := by
  induction peers generalizing discovered with
  | nil => exact h
  | cons peerInfo rest ih =>
    unfold addStored
    split
    · next hnew =>
      have hpush : (discovered ++ [peerInfo.endpoint]).Nodup := by
        rw [nodup_append]
        refine ⟨h, nodup_singleton _, ?_⟩
        intro a ha b hb heq
        rw [mem_singleton.mp hb] at heq
        exact hnew.2 (heq ▸ ha)
      dsimp only
      split
      · exact hpush
      · exact ih hpush
    · exact ih h

theorem spawn_spec (myNodeId : NodeId) (queriedNodes : List NodeId) (nodes : List BucketEntry) :
    ((spawn myNodeId queriedNodes nodes).1.map (·.id)).Nodup ∧
      (spawn myNodeId queriedNodes nodes).1.length ≤ nodes.length ∧
      (∀ id ∈ (spawn myNodeId queriedNodes nodes).1.map (·.id), id ≠ myNodeId ∧ id ∉ queriedNodes) ∧
      ∀ id, id ∈ (spawn myNodeId queriedNodes nodes).2 ↔
        id ∈ queriedNodes ∨ id ∈ (spawn myNodeId queriedNodes nodes).1.map (·.id) := by
  induction nodes generalizing queriedNodes with
  | nil => simp [spawn]
  | cons node rest ih =>
    by_cases hskip : node.id = myNodeId ∨ node.id ∈ queriedNodes
    · rw [spawn, if_pos hskip]
      obtain ⟨hnodup, hlen, hids, hmem⟩ := ih queriedNodes
      exact ⟨hnodup, Nat.le_succ_of_le hlen, hids, hmem⟩
    · rw [spawn, if_neg hskip]
      obtain ⟨hown, hold⟩ := not_or.mp hskip
      obtain ⟨hnodup, hlen, hids, hmem⟩ := ih (node.id :: queriedNodes)
      refine ⟨?_, Nat.succ_le_succ hlen, ?_, ?_⟩
      · rw [map_cons, nodup_cons]
        exact ⟨fun hin => (hids _ hin).2 mem_cons_self, hnodup⟩
      · intro id hid
        cases mem_cons.mp hid with
        | inl heq => exact heq ▸ ⟨hown, hold⟩
        | inr hin => exact ⟨(hids id hin).1, fun h => (hids id hin).2 (mem_cons_of_mem _ h)⟩
      · intro id
        rw [hmem, map_cons, mem_cons, mem_cons]
        tauto

theorem step_spec (h : step myNodeId infoHash count s replies = some s') :
    s.i < 3 ∧ s'.i = s.i + 1 ∧
      (replies.map (·.node)).Perm
        (spawn myNodeId s.queriedNodes (s.nodesToQuery.take alpha)).1 ∧
      s'.queriedNodes = (spawn myNodeId s.queriedNodes (s.nodesToQuery.take alpha)).2 ∧
      ∃ peers : List Endpoint, s'.discovered = peers.foldl (pushNew id) s.discovered := by
  unfold step at h
  dsimp only at h
  split at h
  · next hguard =>
    cases h
    exact ⟨hguard.1.1, rfl, hguard.2, rfl, _, rfl⟩
  · cases h

structure Bounded (myNodeId : NodeId) (rounds : List (List QueryReply)) (s : GetPeers) : Prop where
  nodup : (queriedIds rounds).Nodup
  mem_queriedNodes : ∀ id, id ∈ s.queriedNodes ↔ id ∈ queriedIds rounds
  other : ∀ id ∈ queriedIds rounds, id ≠ myNodeId
  queried_le : (queriedIds rounds).length ≤ s.i * alpha
  i_le : s.i ≤ 3
  discovered : s.discovered.Nodup

theorem bounded_start (n : DhtNode) (infoHash : NodeId) (count : Nat) :
    Bounded n.myNodeId [] (start n infoHash count) where
  nodup := nodup_nil
  mem_queriedNodes _ := Iff.rfl
  other := nofun
  queried_le := Nat.zero_le _
  i_le := Nat.zero_le _
  discovered := nodup_addStored nodup_nil _

theorem Bounded.step {rounds : List (List QueryReply)} (h : Bounded myNodeId rounds s)
    (hstep : GetPeers.step myNodeId infoHash count s replies = some s') :
    Bounded myNodeId (rounds ++ [replies]) s' := by
  obtain ⟨hround, hi, hasked, hqueried, peers, hpeers⟩ := step_spec hstep
  obtain ⟨hnodup, hlen, hids, hmem⟩ :=
    spawn_spec myNodeId s.queriedNodes (s.nodesToQuery.take alpha)
  have hperm := map_id_perm hasked
  have hnew : ∀ id ∈ replies.map (·.node.id), id ≠ myNodeId ∧ id ∉ s.queriedNodes :=
    fun id hid => hids id (hperm.mem_iff.mp hid)
  exact {
    nodup := by
      rw [queriedIds_concat, nodup_append]
      refine ⟨h.nodup, hperm.nodup_iff.mpr hnodup, ?_⟩
      intro id hold id' hid heq
      subst heq
      exact (hnew id hid).2 ((h.mem_queriedNodes id).mpr hold)
    mem_queriedNodes := by
      intro id
      rw [hqueried, hmem, h.mem_queriedNodes, queriedIds_concat, mem_append, hperm.mem_iff]
    other := by
      intro id hid
      rw [queriedIds_concat] at hid
      cases mem_append.mp hid with
      | inl hold => exact h.other id hold
      | inr hin => exact (hnew id hin).1
    queried_le := by
      have htake := length_take_le alpha s.nodesToQuery
      rw [queriedIds_concat, length_append, hperm.length_eq, length_map, hi, Nat.succ_mul]
      exact Nat.add_le_add h.queried_le (Nat.le_trans hlen htake)
    i_le := by
      rw [hi]
      exact hround
    discovered := by
      rw [hpeers, ← map_id (foldl _ _ _)]
      apply nodup_foldl_pushNew
      rw [map_id]
      exact h.discovered }

theorem bounded_run (n : DhtNode) (infoHash : NodeId) (count : Nat)
    {rounds : List (List QueryReply)}
    (hrun : runSteps (GetPeers.step n.myNodeId infoHash count) rounds
      (start n infoHash count) = some s) : Bounded n.myNodeId rounds s :=
  runSteps_history_preserves (fun _ _ _ _ hstep h => h.step hstep) hrun (bounded_start ..)

end GetPeers

/-! ## Both lookups -/

/-- For every node and all responses, after every round: no id was queried twice, the own id never,
    and at most `3 * ALPHA` queries were sent. -/
theorem lookups_bounded (n : DhtNode) (target : NodeId) (count : Nat)
    (rounds : List (List QueryReply)) :
    (∀ s, runSteps (FindNodes.step n.myNodeId target count) rounds
        (FindNodes.start n.myNodeId n.routingTable target count) = some s →
      (queriedIds rounds).Nodup ∧ n.myNodeId ∉ queriedIds rounds ∧
        (queriedIds rounds).length ≤ 3 * alpha ∧
        s.result.length ≤ count ∧ (s.result.map (·.id)).Nodup ∧
        n.myNodeId ∉ s.result.map (·.id) ∧
        s.result.Pairwise (fun a b => distance a.id target < distance b.id target)) ∧
      ∀ s, runSteps (GetPeers.step n.myNodeId target count) rounds
          (GetPeers.start n target count) = some s →
        (queriedIds rounds).Nodup ∧ n.myNodeId ∉ queriedIds rounds ∧
          (queriedIds rounds).length ≤ 3 * alpha ∧ s.discovered.Nodup := by
  constructor
  · intro s hrun
    have h := bounded_run n.myNodeId n.routingTable target count hrun
    refine ⟨(nodup_append.mp h.nodup).1, ?_, ?_, h.result_le,
      nodup_id_of_increasing h.result_increasing, ?_, h.result_increasing⟩
    · exact fun hown => h.other _ (mem_append_left _ hown) rfl
    · exact Nat.le_trans h.queried_le (Nat.mul_le_mul_right _ h.i_le)
    · intro hown
      obtain ⟨e, he, heq⟩ := mem_map.mp hown
      exact h.result_other e he heq
  · intro s hrun
    have h := GetPeers.bounded_run n target count hrun
    refine ⟨h.nodup, fun hown => h.other _ hown rfl, ?_, h.discovered⟩
    exact Nat.le_trans h.queried_le (Nat.mul_le_mul_right _ h.i_le)

theorem lookups_bounded_one :
    (∃ s, runSteps (FindNodes.step (idOf 0) (idOf 0) 8)
        [[answerOf (entryOf 128 .good) [listedNode 2 0, listedNode 1 0, listedNode 2 0] 2]]
        (FindNodes.start (idOf 0) oneNodeTable (idOf 0) 8) = some s ∧
      s.result.length = 3 ∧ (s.result.map (·.id)).Nodup) ∧
      ∃ s, runSteps (GetPeers.step (idOf 0) (idOf 0) 8) [[⟨entryOf 128 .good, .timeout, 2⟩]]
        (GetPeers.start { DhtNode.new (idOf 0) 0 with routingTable := oneNodeTable } (idOf 0) 8) =
          some s ∧ s.discovered.Nodup := by
  have hfind : ((runSteps (step (idOf 0) (idOf 0) 8)
      [[answerOf (entryOf 128 .good) [listedNode 2 0, listedNode 1 0, listedNode 2 0] 2]]
      (start (idOf 0) oneNodeTable (idOf 0) 8)).map (·.result.length)) = some 3 := by
    rw [start_oneNodeTable]
    decide +kernel
  have hstart : GetPeers.start { DhtNode.new (idOf 0) 0 with routingTable := oneNodeTable }
      (idOf 0) 8 = ⟨oneNodeTable, [], [entryOf 128 .good], [], 0⟩ := by
    have hsize : oneNodeTable.size = 1 := by decide +kernel
    unfold GetPeers.start
    simp only [hsize, closest_oneNodeTable]
    rfl
  have hget : ((runSteps (GetPeers.step (idOf 0) (idOf 0) 8)
      [[⟨entryOf 128 .good, .timeout, 2⟩]] (GetPeers.start { DhtNode.new (idOf 0) 0 with
        routingTable := oneNodeTable } (idOf 0) 8)).map (·.i)) = some 1 := by
    rw [hstart]
    decide +kernel
  obtain ⟨s, hs, hlen⟩ := Option.map_eq_some_iff.mp hfind
  obtain ⟨t, ht, -⟩ := Option.map_eq_some_iff.mp hget
  let n : DhtNode := { DhtNode.new (idOf 0) 0 with routingTable := oneNodeTable }
  obtain ⟨-, -, -, -, hnodup, -⟩ := (lookups_bounded n (idOf 0) 8 _).1 s hs
  obtain ⟨-, -, -, hpeers⟩ := (lookups_bounded n (idOf 0) 8 _).2 t ht
  exact ⟨⟨s, hs, hlen, hnodup⟩, t, ht, hpeers⟩

end P2P
