import P2P.Spec.DhtNode

/-!
# The peers that the DHT node stores

The list of a hash is a list of leases, renewed by announces, swept by the cleanup and read by the
queries.
-/

namespace P2P.DhtNode

open List

variable {dataHash : Bytes → Bytes} {n : DhtNode} {infoHash : NodeId} {peer : Endpoint}

def Accepts (dataHash : Bytes → Bytes) (infoHash : NodeId) (peer : Endpoint) (n : DhtNode) :
    Step → Prop
  | .announcePeer args transactionId remote =>
    ((onAnnouncePeerQuery dataHash args transactionId remote).run.run n).1 =
        .ok (createAnnouncePeerResponse transactionId n.myNodeId) ∧
      ∃ a, announceOf args remote = some a ∧ a.infoHash = infoHash ∧ a.peer remote = peer
  | _ => False

theorem announce_accepted_or_rejected (dataHash : Bytes → Bytes) (n : DhtNode) (args : Dict)
    (transactionId : Bytes) (remote : Endpoint) :
    ∃ r n', (onAnnouncePeerQuery dataHash args transactionId remote).run.run n = (r, n') ∧
      ((∃ a, announceOf args remote = some a ∧
          r = .ok (createAnnouncePeerResponse transactionId n.myNodeId) ∧
          SameStore (n.storePeer a.infoHash (a.peer remote)) n') ∨
        (r ≠ .ok (createAnnouncePeerResponse transactionId n.myNodeId) ∧ SameStore n n')) := by
  cases ha : announceOf args remote with
  | none =>
    obtain ⟨r, hrun, hr⟩ := run_onAnnouncePeerQuery_of_none dataHash n transactionId ha
    exact ⟨r, n, hrun, .inr ⟨hr _ _, .refl n⟩⟩
  | some a =>
    have hsame := sameStore_seen n a.senderId remote
    rw [run_onAnnouncePeerQuery ha, run_acceptAnnounce]
    split
    · refine ⟨_, _, rfl, .inr ⟨?_, hsame⟩⟩
      intro heq
      injection heq with heq
      exact createErrorResponse_ne _ _ _ _ heq
    · refine ⟨_, _, rfl, .inl ⟨a, rfl, ?_, ?_⟩⟩
      · rw [hsame.myNodeId]
      · constructor
        · exact hsame.myNodeId
        · unfold storePeer stored Announce.peer
          dsimp only
          rw [hsame.knownPeers, hsame.now]
        · exact hsame.now

theorem stored_storePeer (n : DhtNode) (h infoHash : NodeId) (peer : Endpoint) :
    (n.storePeer h peer).stored infoHash =
      if infoHash = h then
        Leases.renew PeerInfo.endpoint (n.stored h) ⟨peer, n.now + peerStorageLifetime⟩
      else n.stored infoHash := by
  unfold storePeer stored
  dsimp only
  rw [OrdMap.get?_insert]
  split
  · rfl
  · rfl

theorem stored_cleanup (n : DhtNode) (infoHash : NodeId) :
    n.cleanup.stored infoHash = Leases.current PeerInfo.expiry (n.stored infoHash) n.now := by
  unfold cleanup stored
  dsimp only
  rw [OrdMap.get?_filterMap]
  cases n.knownPeers.get? infoHash with
  | none => rfl
  | some peers =>
    dsimp only [Option.bind_some, Option.getD_some]
    split
    · rename_i hempty
      exact (isEmpty_iff.mp hempty).symm
    · rfl

variable {n' : DhtNode}

theorem SameStore.stored (h : SameStore n n') (infoHash : NodeId) :
    n'.stored infoHash = n.stored infoHash := by
  unfold DhtNode.stored
  rw [h.knownPeers]

variable {n₀ : DhtNode} {es : List Step}

/-- The list of a hash and, for each peer, the last announce that was accepted in the run. -/
def Tracked (dataHash : Bytes → Bytes) (n₀ : DhtNode) (es : List Step) (n : DhtNode)
    (infoHash : NodeId) : Prop :=
  ∃ last : Endpoint → Option Int,
    Leases.Tracks PeerInfo.endpoint PeerInfo.expiry (n.stored infoHash) last n.now ∧
    ∀ peer expiry, last peer = some expiry ↔
      ∃ m, LastStep (step dataHash) (Accepts dataHash infoHash peer) es n₀ m ∧
        expiry = m.now + peerStorageLifetime

variable {e : Step}

section

variable (h : Tracked dataHash n₀ es n infoHash)

include h

theorem Tracked.concat_of_not_accepts (hrun : runSteps (step dataHash) es n₀ = some n)
    (hnot : ∀ peer, ¬ Accepts dataHash infoHash peer n e)
    (hstored : ∀ last,
      Leases.Tracks PeerInfo.endpoint PeerInfo.expiry (n.stored infoHash) last n.now →
        Leases.Tracks PeerInfo.endpoint PeerInfo.expiry (n'.stored infoHash) last n'.now) :
    Tracked dataHash n₀ (es ++ [e]) n' infoHash := by
  obtain ⟨last, htracks, hlast⟩ := h
  refine ⟨last, hstored last htracks, fun peer expiry => ?_⟩
  simp only [hlast, lastStep_concat hrun, hnot, false_and, false_or, not_false_eq_true, true_and]

theorem Tracked.concat_of_accepts (peer : Endpoint) (hrun : runSteps (step dataHash) es n₀ = some n)
    (haccepts : ∀ p, Accepts dataHash infoHash p n e ↔ p = peer)
    (hstored : n'.stored infoHash =
      Leases.renew PeerInfo.endpoint (n.stored infoHash) ⟨peer, n.now + peerStorageLifetime⟩)
    (hnow : n'.now = n.now) : Tracked dataHash n₀ (es ++ [e]) n' infoHash := by
  obtain ⟨last, htracks, hlast⟩ := h
  refine ⟨Function.update last peer (some (n.now + peerStorageLifetime)), ?_, fun p expiry => ?_⟩
  · rw [hstored, hnow]
    exact htracks.renew _
  · simp only [lastStep_concat hrun, haccepts]
    by_cases hp : p = peer
    · subst hp
      simp [eq_comm]
    · rw [Function.update_of_ne hp, hlast]
      simp [hp]

theorem Tracked.step (hrun : runSteps (step dataHash) es n₀ = some n)
    (hstep : n.step dataHash e = some n') : Tracked dataHash n₀ (es ++ [e]) n' infoHash := by
  cases e with
  | getPeers args transactionId remote =>
    obtain ⟨r, n₁, hq, hsame, -⟩ := run_onGetPeersQuery dataHash n args transactionId remote
    rw [DhtNode.step, hq] at hstep
    cases hstep
    apply h.concat_of_not_accepts hrun
    · exact fun _ => id
    · intro last htracks
      rwa [hsame.stored, hsame.now]
  | announcePeer args transactionId remote =>
    obtain ⟨r, n₁, hq, hr⟩ :=
      announce_accepted_or_rejected dataHash n args transactionId remote
    rw [DhtNode.step, hq] at hstep
    cases hstep
    have haccepts : ∀ p, Accepts dataHash infoHash p n (.announcePeer args transactionId remote) ↔
        r = .ok (createAnnouncePeerResponse transactionId n.myNodeId) ∧
          ∃ a, announceOf args remote = some a ∧ a.infoHash = infoHash ∧ a.peer remote = p := by
      intro p
      rw [Accepts, hq]
    rcases hr with ⟨a, ha, hok, hsame⟩ | ⟨hnot, hsame⟩
    · by_cases hh : infoHash = a.infoHash
      · apply h.concat_of_accepts (a.peer remote) hrun
        · intro p
          rw [haccepts, ha]
          simp [hok, hh, eq_comm]
        · rw [hsame.stored, stored_storePeer, if_pos hh, hh]
        · exact hsame.now
      · apply h.concat_of_not_accepts hrun
        · intro p hp
          obtain ⟨-, b, hb, hbh, -⟩ := (haccepts p).mp hp
          rw [ha] at hb
          cases hb
          exact hh hbh.symm
        · intro last htracks
          rwa [hsame.stored, stored_storePeer, if_neg hh, hsame.now]
    · apply h.concat_of_not_accepts hrun
      · intro p hp
        exact hnot ((haccepts p).mp hp).1
      · intro last htracks
        rwa [hsame.stored, hsame.now]
  | cleanup =>
    cases hstep
    apply h.concat_of_not_accepts hrun
    · exact fun _ => id
    · intro last htracks
      rw [stored_cleanup]
      exact htracks.current
  | wait time =>
    cases hstep
    apply h.concat_of_not_accepts hrun
    · exact fun _ => id
    · intro last htracks
      exact htracks.mono (by dsimp only; omega)

end

theorem tracked_run {id : NodeId} {t₀ : Int} (infoHash : NodeId)
    (hrun : runSteps (step dataHash) es (new id t₀) = some n) :
    Tracked dataHash (new id t₀) es n infoHash := by
  suffices h : runSteps (step dataHash) es (new id t₀) = some n ∧
      Tracked dataHash (new id t₀) es n infoHash from h.2
  refine runSteps_history (I := fun es n =>
    runSteps (step dataHash) es (new id t₀) = some n ∧ Tracked dataHash (new id t₀) es n infoHash)
    ?_ (StepsMeet.of_forall (p := fun _ => True) (fun _ _ => trivial) _) hrun ⟨rfl, ?_⟩
  · intro es n e n' _ hstep h
    refine ⟨?_, h.2.step h.1 hstep⟩
    rw [runSteps_append, h.1, Option.bind_some, runSteps, hstep]
    rfl
  · refine ⟨fun _ => none, Leases.Tracks.nil _, fun peer expiry => ?_⟩
    simp [not_lastStep_nil]

/-- **The peers of a hash.** After every run a get_peers query is answered with the peers whose last
    accepted announce is less than the storage lifetime old, each once. -/
theorem dht_peers_exact {id : NodeId} {t₀ : Int}
    (hrun : runSteps (step dataHash) es (new id t₀) = some n) :
    (∀ infoHash : NodeId, ∃ peers : List Endpoint, peers.Nodup ∧
      (∀ peer, peer ∈ peers ↔
        ∃ m, LastStep (step dataHash) (Accepts dataHash infoHash peer) es (new id t₀) m ∧
          n.now - m.now < peerStorageLifetime) ∧
      ∀ args transactionId remote, SenderReadable args →
        Assoc.find? args (.ascii "info_hash") = some (.str infoHash.val) →
        ∃ v, ((onGetPeersQuery dataHash args transactionId remote).run.run n).1 = .ok v ∧
          replyValues v = toCompactPeerList peers) ∧
    ∀ args transactionId remote,
      ((onAnnouncePeerQuery dataHash args transactionId remote).run.run n).1 ≠
        .ok (createAnnouncePeerResponse transactionId n.myNodeId) →
      ((onAnnouncePeerQuery dataHash args transactionId remote).run.run n).2.knownPeers =
        n.knownPeers := by
  constructor
  · intro infoHash
    obtain ⟨last, htracks, hlast⟩ := tracked_run infoHash hrun
    refine ⟨n.peersForHash infoHash, htracks.current.nodup, fun peer => ?_, ?_⟩
    · rw [peersForHash, htracks.mem_current]
      constructor
      · intro h
        obtain ⟨expiry, hexpiry, hlt⟩ := h
        obtain ⟨m, hm, rfl⟩ := (hlast peer expiry).mp hexpiry
        exact ⟨m, hm, by omega⟩
      · intro h
        obtain ⟨m, hm, hlt⟩ := h
        exact ⟨_, (hlast peer _).mpr ⟨m, hm, rfl⟩, by omega⟩
    · intro args transactionId remote hsender hhash
      obtain ⟨n', hq, hsame⟩ :=
        run_onGetPeersQuery_of_readable dataHash n transactionId remote hsender hhash
      rw [hq]
      exact ⟨_, rfl, by rw [replyValues_getPeersResponse, hsame.peersForHash]⟩
  · intro args transactionId remote hrejected
    obtain ⟨r, n', hq, hr⟩ := announce_accepted_or_rejected dataHash n args transactionId remote
    rw [hq] at hrejected ⊢
    rcases hr with ⟨a, -, hok, -⟩ | ⟨-, hsame⟩
    · exact absurd hok hrejected
    · exact hsame.knownPeers

theorem dht_peers_exact_one :
    let id : NodeId := ⟨replicate 20 7, rfl⟩
    let remote : Endpoint := ⟨⟨1, 2, 3, 4⟩, 6881⟩
    let announce : Bytes → Dict := fun token =>
      [(.ascii "id", .str id.val), (.ascii "info_hash", .str id.val), (.ascii "port", .int 6881),
        (.ascii "token", .str token)]
    let es : List Step :=
      [.announcePeer (announce (generateToken reverse remote 0)) [1, 1] remote,
        .wait 300000000000, .announcePeer (announce []) [1, 2] ⟨⟨5, 6, 7, 8⟩, 6881⟩, .cleanup]
    ∃ n, runSteps (step reverse) es (new id 0) = some n ∧
      ∃ peers, peers.Nodup ∧
        (∀ peer, peer ∈ peers ↔
          ∃ m, LastStep (step reverse) (Accepts reverse id peer) es (new id 0) m ∧
            n.now - m.now < peerStorageLifetime) ∧
        ∃ v, ((onGetPeersQuery reverse [(.ascii "info_hash", .str id.val)] [1, 3]
            remote).run.run n).1 = .ok v ∧ replyValues v = toCompactPeerList peers := by
  intro id remote announce es
  have hrun : runSteps (step reverse) es (new id 0) = some _ := rfl
  obtain ⟨peers, hnodup, hpeers, hquery⟩ := (dht_peers_exact hrun).1 id
  exact ⟨_, hrun, peers, hnodup, hpeers, hquery _ [1, 3] remote nofun rfl⟩

end P2P.DhtNode
