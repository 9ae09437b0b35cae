import P2P.Spec.BlockRequests
import P2P.Spec.PieceMap

/-!
# Blocks that nobody asks for

A peer is entered as an owner of a block after it has been found.
-/

namespace P2P

open RequestStep RequestRun List Option

namespace RequestRun

def Abandons (r : RequestRun) (k : Nat) (req : RequestPayload) : Prop :=
  ∀ peer ∈ r.peers[k]?, r.Live k peer.peerId → ¬ r.waits req.piece req.block peer.peerId = true

instance Abandons.decidable (r : RequestRun) (k : Nat) (req : RequestPayload) :
    Decidable (r.Abandons k req) :=
  inferInstanceAs (Decidable (∀ peer ∈ r.peers[k]?, r.Live k peer.peerId → _))

/-- What the coroutine has found still holds, and index and offset are `uint32_t` values. -/
def Enters (info : TorrentInfo) (r : RequestRun) : Option RequestTask → Prop
  | some (.tryPiece piece (some k)) => (∀ peer ∈ r.peers[k]?, r.Ready k peer) ∧ piece < 2 ^ 32 ∧
    r.totalBlocks info piece * blockSize ≤ 2 ^ 32
  | some (.place piece _ (block :: _) (some k)) => (∀ peer ∈ r.peers[k]?, r.Ready k peer) ∧
    piece < 2 ^ 32 ∧ block * blockSize < 2 ^ 32
  | _ => True

instance Enters.decidable (info : TorrentInfo) (r : RequestRun) : ∀ t,
    Decidable (r.Enters info t) := by
  intro st
  unfold Enters
  split <;> infer_instance

/-- The condition on a coroutine that gives a request up: no block waits for it. -/
def GivesUp (r : RequestRun) : Option RequestTask → Prop
  | some (.write k req _) => r.Abandons k req
  | some (.cancel k req) => r.Abandons k req
  | _ => True

instance GivesUp.decidable (r : RequestRun) : ∀ t, Decidable (r.GivesUp t) := by
  intro st
  unfold GivesUp
  split <;> infer_instance

/-- The end of `on_disconnect`: no other connection is registered under the id of the peer. -/
def Leaves (r : RequestRun) : Option RequestTask → Prop
  | some (.disconnect k true) =>
    ∀ peer ∈ r.peers[k]?, ∀ k' ∈ r.connections.get? peer.peerId, k' = k
  | _ => True

instance Leaves.decidable (r : RequestRun) : ∀ t, Decidable (r.Leaves t) := by
  intro st
  unfold Leaves
  split <;> infer_instance

/-- A new connection: no block waits for a request of the one that it replaces. -/
def Replaces (r : RequestRun) (peerId : Bytes) : Prop :=
  ∀ k ∈ r.connections.get? peerId,
    (∀ peer ∈ r.peers[k]?, ∀ req ∈ peer.conn.pendingRequests, r.Abandons k req) ∧
    ∀ t ∈ r.tasks, ∀ req ∈ t.request? k, r.Abandons k req

instance Replaces.decidable (r : RequestRun) (peerId : Bytes) : Decidable (r.Replaces peerId) :=
  inferInstanceAs (Decidable (∀ k ∈ r.connections.get? peerId, _ ∧ _))

theorem Replaces.not_waits {r : RequestRun} {peerId : Bytes} (hok : r.Replaces peerId)
    (h : r.Covered) (piece block : Nat) : ¬ r.waits piece block peerId = true := by
  intro hw
  obtain ⟨k, hlive, peer, hpeer, rfl, req, rfl, rfl, hholds⟩ := h.served piece block peerId hw
  obtain ⟨hqueue, hsent⟩ := hok k hlive.1
  have habandons : r.Abandons k req := by
    rcases hholds with ⟨t, ht, hask⟩ | hqueued
    · exact hsent t ht req hask.request?
    · exact hqueue peer hpeer req hqueued
  exact habandons peer hpeer hlive hw

end RequestRun

/-- An owner is entered while what was found about it still holds, a request is given up when no
    block waits for it, and connections of one peer do not get in each other's way. -/
def RequestStep.Timely (info : TorrentInfo) (r : RequestRun) : RequestStep → Prop
  | .connect peerId => r.Replaces peerId
  | .register i => r.Enters info r.tasks[i]?
  | .writeFailed i => r.GivesUp r.tasks[i]?
  | .sendCancel i => r.GivesUp r.tasks[i]?
  | .onDisconnect i => r.Leaves r.tasks[i]?
  | _ => True

instance RequestStep.Timely.decidable (info : TorrentInfo) (r : RequestRun) :
    ∀ st, Decidable (RequestStep.Timely info r st) := by
  intro st
  unfold RequestStep.Timely
  split <;> infer_instance

namespace RequestStep

open RequestRun RequestTask

variable {info : TorrentInfo} {r r' : RequestRun}

variable {i k : Nat}

theorem live_of_resume {t : RequestTask} {new : List RequestTask} {peerId : Bytes}
    (htask : r.tasks[i]? = some t) (ht : t ≠ .disconnect k true)
    (h : (r.resume i new).Live k peerId) : r.Live k peerId :=
  ⟨h.1, fun hmem => h.2 (mem_append_left _ (mem_eraseIdx_of_ne hmem htask ht.symm))⟩

theorem setConn_nil (r : RequestRun) (k : Nat) (conn : PeerConnection) : r.setConn k [] conn =
    { r with peers := r.peers.modify k fun peer => { peer with conn := conn } } := by
  simp [setConn]

theorem register_covered (h : Covered r) (hok : r.Enters info r.tasks[i]?)
    (hstep : step info r (.register i) = some r') : Covered r' := by
  simp only [step] at hstep
  split at hstep
  · next piece k htask =>
    rw [htask] at hok
    obtain ⟨peer, hpeer, hstep⟩ := bind_eq_some_iff.mp hstep
    obtain ⟨hready, hpiece, hblocks⟩ := hok
    have hkeeps : Keeps r (r.resume i []) :=
      keeps_resume_of_not_asks htask hasDropped_nil fun _ _ => id
    cases hstep
    refine (h.of_keeps hkeeps).seedPiece hpeer ?_ hpiece hblocks
    exact ready_resume (hready peer hpeer) hasDropped_nil
  · next piece number block blocks k htask =>
    rw [htask] at hok
    obtain ⟨peer, hpeer, hstep⟩ := bind_eq_some_iff.mp hstep
    obtain ⟨hready, hpiece, hblock⟩ := hok
    have hkeeps := keeps_resume_of_not_asks htask (hasDropped_placeRest piece number blocks)
      fun _ _ => id
    cases hstep
    refine (h.of_keeps hkeeps).placeBlock hpeer ?_ hpiece hblock number
    exact ready_resume (hready peer hpeer) (hasDropped_placeRest piece number blocks)
  · cases hstep

theorem sendRequest_keeps (hstep : step info r (.sendRequest i) = some r') : Keeps r r' := by
  simp only [step] at hstep
  split at hstep
  · next k req htask =>
    obtain ⟨peer, hpeer, hstep⟩ := bind_eq_some_iff.mp hstep
    have hqueue := peer.conn.pendingRequests_sendRequest req.index.toUInt64 req.begin req.length
    cases hstep
    cases hstarted : (peer.conn.sendRequest req.index.toUInt64 req.begin req.length).1 with
    | true =>
      -- the spawned request becomes one in flight
      rw [hstarted, if_pos rfl] at hqueue
      have hkeeps : Keeps r (r.resume i [.write k req false]) := by
        refine keeps_resume htask (hasDropped_singleton rfl) fun k' req' peer' hask _ _ _ => ?_
        exact .inl ⟨_, mem_append_right _ (mem_singleton.mpr rfl), hask⟩
      refine hkeeps.trans (keeps_setConn (r := r.resume i [.write k req false]) hpeer
        fun req' hreq' _ _ => .inl ?_)
      rw [hqueue]
      exact hreq'
    | false =>
      -- the request is queued first, so that it is on its way when the coroutine ends
      rw [hstarted, if_neg (by decide)] at hqueue
      rw [if_neg (by decide), setConn_nil]
      have hkeeps : Keeps r (r.setConn k []
          (peer.conn.sendRequest req.index.toUInt64 req.begin req.length).2) := by
        refine keeps_setConn hpeer fun req' hreq' _ _ => .inl ?_
        rw [hqueue]
        exact mem_append_left _ hreq'
      rw [setConn_nil] at hkeeps
      refine hkeeps.trans (keeps_resume htask hasDropped_nil ?_)
      rintro k' req' peer' ⟨rfl, rfl⟩ hpeer' _ _
      rw [getElem?_modify_eq, hpeer] at hpeer'
      cases hpeer'
      refine .inr ?_
      show req ∈ (peer.conn.sendRequest _ _ _).2.pendingRequests
      rw [hqueue]
      exact mem_append_right _ (mem_singleton.mpr (by simp))
  · cases hstep

theorem writeDone_keeps (hstep : step info r (.writeDone i) = some r') : Keeps r r' := by
  simp only [step] at hstep
  split at hstep
  · next k req flushed htask =>
    obtain ⟨peer, hpeer, hstep⟩ := bind_eq_some_iff.mp hstep
    cases hstep
    have hkeeps : Keeps r
        (r.modifyBlock req.piece req.block (·.recordRequestSent peer.peerId)) :=
      keeps_modifyBlock fun b peerId h => absurd h BlockRequests.not_waits_recordRequestSent
    refine hkeeps.trans (keeps_resume htask hasDropped_nil ?_)
    rintro k' req' peer' ⟨rfl, rfl⟩ _ _ hw
    exact absurd hw (not_waits_modifyBlock fun b => BlockRequests.not_waits_recordRequestSent)
  · cases hstep

theorem writeFailed_keeps (hok : r.GivesUp r.tasks[i]?)
    (hstep : step info r (.writeFailed i) = some r') : Keeps r r' := by
  have hkeeps : ∀ {k req flushed}, r.tasks[i]? = some (.write k req flushed) →
      Keeps r (r.resume i []) := by
    intro k req flushed htask
    rw [htask] at hok
    refine keeps_resume htask hasDropped_nil ?_
    rintro k' req' peer ⟨rfl, rfl⟩ hpeer hlive hw
    exact absurd hw (hok peer hpeer hlive)
  simp only [step] at hstep
  split at hstep
  · next k req htask =>
    obtain ⟨peer, hpeer, hstep⟩ := bind_eq_some_iff.mp hstep
    cases hstep
    exact (hkeeps htask).trans
      (keeps_flush (r := r.resume i []) hpeer (peer.conn.requestFailed_suffix req.length))
  · next htask =>
    cases hstep
    exact hkeeps htask
  · cases hstep

theorem sendCancel_keeps (hok : r.GivesUp r.tasks[i]?)
    (hstep : step info r (.sendCancel i) = some r') : Keeps r r' := by
  simp only [step] at hstep
  split at hstep
  · next k req htask =>
    rw [htask] at hok
    obtain ⟨peer, hpeer, hstep⟩ := bind_eq_some_iff.mp hstep
    cases hstep
    refine (keeps_resume_of_not_asks htask hasDropped_nil
      fun _ _ => id).trans (keeps_setConn (r := r.resume i []) hpeer fun req' hreq' hlive hw => ?_)
    refine mem_of_suffix (peer.conn.sendCancel_suffix _ _ _) ?_
    refine (mem_eraseP_of_neg fun hqueued => ?_).mpr hreq'
    obtain ⟨hpiece, hblock⟩ := isQueued_same hqueued
    rw [hpiece, hblock] at hw
    exact hok peer hpeer (live_of_resume htask nofun hlive) hw
  · cases hstep

theorem message_keeps {msg : PeerMessage} (hstep : step info r (.message k msg) = some r') :
    Keeps r r' := by
  simp only [step] at hstep
  obtain ⟨peer, hpeer, hstep⟩ := bind_eq_some_iff.mp hstep
  have hkeeps := keeps_flush hpeer (peer.conn.receive_suffix msg)
  split at hstep
  · cases hstep
  · split at hstep
    · cases hstep
      exact hkeeps.trans (keeps_spawn (hasDropped_singleton rfl))
    · cases hstep
      exact hkeeps.trans (keeps_modifyBlock fun b peerId => BlockRequests.waits_of_reject)
    · cases hstep
      exact hkeeps

theorem choke_covered (h : Covered r) (hstep : step info r (.choke i) = some r') : Covered r' := by
  simp only [step] at hstep
  split at hstep
  · next k htask =>
    obtain ⟨peer, hpeer, hstep⟩ := bind_eq_some_iff.mp hstep
    cases hstep
    exact h.dropPeer hpeer htask (fun _ _ => id) (.inl rfl)
  · next k htask =>
    obtain ⟨peer, hpeer, hstep⟩ := bind_eq_some_iff.mp hstep
    cases hstep
    refine h.of_keeps ((keeps_resume_of_not_asks htask hasDropped_nil
      fun _ _ => id).trans (keeps_setConn (r := r.resume i []) hpeer fun req hreq hlive hw => ?_))
    exact absurd hw (h.choked k peer (mem_of_getElem? htask) hpeer hlive.1 _ _)
  · cases hstep

theorem onDisconnect_covered (h : Covered r) (hok : r.Leaves r.tasks[i]?)
    (hstep : step info r (.onDisconnect i) = some r') : Covered r' := by
  simp only [step] at hstep
  split at hstep
  · next k htask =>
    obtain ⟨peer, hpeer, hstep⟩ := bind_eq_some_iff.mp hstep
    cases hstep
    exact h.dropPeer hpeer htask (fun _ _ => id) (.inr rfl)
  · next k htask =>
    rw [htask] at hok
    obtain ⟨peer, hpeer, hstep⟩ := bind_eq_some_iff.mp hstep
    cases hstep
    exact h.disconnect htask (hok peer hpeer)
  · cases hstep

theorem pieceBlock_keeps {req : RequestPayload} {endgame : Bool}
    (hstep : step info r (.pieceBlock k req endgame) = some r') : Keeps r r' := by
  have hcancel : Keeps r (r.spawn [.cancel k req]) :=
    keeps_spawn (hasDropped_singleton rfl)
  simp only [step] at hstep
  obtain ⟨peer, hpeer, hstep⟩ := bind_eq_some_iff.mp hstep
  split at hstep
  · cases hstep
    exact hcancel
  · split at hstep
    · cases hstep
      exact hcancel
    · split at hstep
      · have hreceived : Keeps r
          (r.modifyBlock req.piece req.block ({ · with received := true })) :=
          keeps_modifyBlock fun b peerId h => absurd h (by simp [BlockRequests.waits])
        cases hstep
        split
        · exact hreceived.trans (keeps_sendCancelForBlock _ _ _)
        · exact hreceived
      · cases hstep
        exact .refl r

theorem leaveProgress_keeps {piece : Nat} {valid : Bool}
    (hstep : step info r (.leaveProgress piece valid) = some r') : Keeps r r' := by
  cases hstep
  refine ⟨fun piece' block peerId h => ?_, fun _ _ _ _ _ hs => hs, fun _ peer hc hp hr =>
    ⟨hc, hr, peer, hp, rfl⟩⟩
  rw [waits_iff] at h ⊢
  obtain ⟨b, hb, hw⟩ := h
  by_cases hpiece : piece' = piece
  · simp [blockAt, hpiece] at hb
  · simp only [blockAt, Function.update_of_ne hpiece] at hb
    exact ⟨b, hb, hw⟩

theorem pick_keeps (hstep : step info r (.pick i k) = some r') : Keeps r r' := by
  simp only [step] at hstep
  obtain ⟨peer, -, hstep⟩ := bind_eq_some_iff.mp hstep
  split at hstep
  · split at hstep
    · next htask =>
      cases hstep
      exact keeps_resume_of_not_asks htask (hasDropped_singleton rfl)
        fun _ _ => id
    · next htask =>
      cases hstep
      exact keeps_resume_of_not_asks htask (hasDropped_singleton rfl)
        fun _ _ => id
    · cases hstep
  · cases hstep

theorem pickNone_keeps (hstep : step info r (.pickNone i) = some r') : Keeps r r' := by
  simp only [step] at hstep
  split at hstep
  · next htask =>
    cases hstep
    exact keeps_resume_of_not_asks htask hasDropped_nil fun _ _ => id
  · next htask =>
    cases hstep
    exact keeps_resume_of_not_asks htask (hasDropped_placeRest _ _ _) fun _ _ => id
  · cases hstep

theorem checkBlockTimeouts_keeps {piece block : Nat}
    (hstep : step info r (.checkBlockTimeouts piece block) = some r') : Keeps r r' := by
  simp only [step] at hstep
  obtain ⟨p, -, hstep⟩ := bind_eq_some_iff.mp hstep
  obtain ⟨b, -, hstep⟩ := bind_eq_some_iff.mp hstep
  split at hstep
  · cases hstep
    exact (keeps_sendCancelForBlock piece block noPeer).trans
      (keeps_spawn (hasDropped_singleton rfl))
  · cases hstep

theorem step_covered {st : RequestStep} (hok : Timely info r st) (hstep : step info r st = some r')
    (h : Covered r) : Covered r' := by
  have hspawn : ∀ {t : RequestTask}, t.hasDropped = false → Covered (r.spawn [t]) :=
    fun ht => h.of_keeps (keeps_spawn (hasDropped_singleton ht))
  cases st with
  | connect peerId =>
    cases hstep
    exact h.connect (hok.not_waits h)
  | tryPieceDownload | spawnSend | disconnect =>
    simp only [step] at hstep
    split at hstep
    · cases hstep
      exact hspawn rfl
    · cases hstep
  | resumePieceDownload piece =>
    obtain ⟨p, -, hstep⟩ := bind_eq_some_iff.mp hstep
    cases hstep
    exact h.of_keeps (keeps_spawn (hasDropped_placeRest _ _ _))
  | checkBlockTimeouts piece block => exact h.of_keeps (checkBlockTimeouts_keeps hstep)
  | tailScheduler piece block =>
    simp only [step] at hstep
    obtain ⟨p, -, hstep⟩ := bind_eq_some_iff.mp hstep
    obtain ⟨b, -, hstep⟩ := bind_eq_some_iff.mp hstep
    split at hstep
    · cases hstep
    · cases hstep
      exact hspawn rfl
  | pick i k => exact h.of_keeps (pick_keeps hstep)
  | pickNone i => exact h.of_keeps (pickNone_keeps hstep)
  | register i => exact register_covered h hok hstep
  | sendRequest i => exact h.of_keeps (sendRequest_keeps hstep)
  | writeDone i => exact h.of_keeps (writeDone_keeps hstep)
  | writeFailed i => exact h.of_keeps (writeFailed_keeps hok hstep)
  | sendCancel i => exact h.of_keeps (sendCancel_keeps hok hstep)
  | message k msg => exact h.of_keeps (message_keeps hstep)
  | choke i => exact choke_covered h hstep
  | pieceBlock k req endgame => exact h.of_keeps (pieceBlock_keeps hstep)
  | leaveProgress piece valid => exact h.of_keeps (leaveProgress_keeps hstep)
  | onDisconnect i => exact onDisconnect_covered h hok hstep

theorem covered_start (pieceStatus : List PieceStatus) (restored : Nat → Option (List Bool)) :
    Covered (start pieceStatus restored) := by
  refine ⟨fun piece block peerId hw => ?_, fun k peer hc => absurd hc not_mem_nil⟩
  rw [waits_iff] at hw
  obtain ⟨b', hb', hw⟩ := hw
  obtain ⟨p, hp, hb'⟩ := bind_eq_some_iff.mp hb'
  obtain ⟨flags, -, rfl⟩ := map_eq_some_iff.mp hp
  rw [getElem?_map] at hb'
  obtain ⟨received, -, rfl⟩ := map_eq_some_iff.mp hb'
  rw [BlockRequests.waits_iff] at hw
  exact absurd hw.2.2 not_mem_nil

end RequestStep

def RequestRun.Quiet (r : RequestRun) : Prop := ∀ t ∈ r.tasks, ∀ k req, ¬ t.Asks k req

/-- In a quiet state of a run in which owners are entered in time, a missing block with owners has
    its time set, or it is queued at the registered connection of an owner. -/
theorem no_orphaned_block (info : TorrentInfo) (pieceStatus : List PieceStatus)
    (restored : Nat → Option (List Bool)) (steps : List RequestStep)
    (htimely : StepsMeet (step info) (RequestStep.Timely info) steps
      (start pieceStatus restored))
    (r : RequestRun)
    (hrun : run info steps (start pieceStatus restored) = some r)
    (hquiet : r.Quiet) (piece block : Nat) (p : PieceRequests) (b : BlockRequests)
    (hp : r.inProgress piece = some p) (hb : p.blocks[block]? = some b)
    (hreceived : b.received = false) (howned : b.outstanding ≠ []) :
    b.armed = true ∨ ∃ k peer, r.peers[k]? = some peer ∧
      r.connections.get? peer.peerId = some k ∧ peer.peerId ∈ b.outstanding ∧
      ∃ req ∈ peer.conn.pendingRequests, req.piece = piece ∧ req.block = block := by
  have hcovered : r.Covered := runSteps_invariant
    (fun _ _ _ hok hstep h => step_covered hok hstep h) htimely hrun
    (covered_start pieceStatus restored)
  cases harmed : b.armed with
  | true => exact .inl rfl
  | false =>
    obtain ⟨peerId, hmem⟩ := exists_mem_of_ne_nil _ howned
    have hblock : r.blockAt piece block = some b := by
      rw [blockAt, hp]
      exact hb
    have hwaits : r.waits piece block peerId = true :=
      waits_iff.mpr ⟨b, hblock, BlockRequests.waits_iff.mpr ⟨hreceived, harmed, hmem⟩⟩
    obtain ⟨k, hlive, peer, hpeer, rfl, req, hpiece, hreq, hholds⟩ :=
      hcovered.served piece block peerId hwaits
    -- nothing is spawned or in flight, so the request is in the queue
    rcases hholds with ⟨t, ht, hask⟩ | hqueued
    · exact absurd hask (hquiet t ht k req)
    · exact .inr ⟨k, peer, hpeer, hlive.1, hmem, req, hqueued, hpiece, hreq⟩

/-- Two peers connect, and the piece is asked of the first one, which then chokes us. -/
def refilled : List RequestStep :=
  [.connect [1], .message 0 .unchoke, .connect [2], .message 1 .unchoke,
    .tryPieceDownload 0, .pick 0 0, .register 0, .sendRequest 0, .writeDone 0,
    .message 0 .choke, .choke 0, .choke 0, .resumePieceDownload 0, .pick 0 1]

theorem no_orphaned_block_refilled :
    ∃ r p b, run twoByteInfo
        (refilled ++ [.register 0, .sendRequest 0, .writeDone 0])
        (start [.needed] fun _ => none) = some r ∧
      r.inProgress 0 = some p ∧ p.blocks[0]? = some b ∧ b.outstanding = [[2]] ∧
      (b.armed = true ∨ ∃ k peer, r.peers[k]? = some peer ∧
        r.connections.get? peer.peerId = some k ∧ peer.peerId ∈ b.outstanding ∧
        ∃ req ∈ peer.conn.pendingRequests, req.piece = 0 ∧ req.block = 0) := by
  obtain ⟨r, hrun, htasks, hblocks⟩ : ∃ r, run twoByteInfo
        (refilled ++ [.register 0, .sendRequest 0, .writeDone 0])
        (start [.needed] fun _ => none) = some r ∧ r.tasks = [] ∧
      r.inProgress 0 = some ⟨1, [{ outstanding := [[2]], armed := true }]⟩ :=
    ⟨(run _ _ _).get (by decide +kernel), (some_get _).symm, by decide +kernel,
      by decide +kernel⟩
  refine ⟨r, _, _, hrun, hblocks, rfl, rfl, ?_⟩
  refine no_orphaned_block twoByteInfo [.needed] (fun _ => none) _ (by decide +kernel)
    r hrun ?_ 0 0 _ _
    hblocks rfl rfl (by decide)
  rw [RequestRun.Quiet, htasks]
  exact fun t ht => absurd ht not_mem_nil

/-- The second peer disconnects before it is entered. -/
theorem disconnected_owner_orphans_block :
    (run twoByteInfo
        (refilled ++ [.disconnect 1, .onDisconnect 1, .onDisconnect 1, .register 0, .sendRequest 0,
          .writeFailed 0])
        (start [.needed] fun _ => none)).map (fun r =>
          (r.tasks, r.inProgress 0, r.connections.get? [2])) =
      some ([], some ⟨1, [{ outstanding := [[2]], armed := false }]⟩, none) ∧
    (run twoByteInfo
        (refilled ++ [.disconnect 1, .onDisconnect 1, .onDisconnect 1, .register 0, .sendRequest 0,
          .writeFailed 0])
        (start [.needed] fun _ => none)).map (fun r =>
          ((r.inProgress 0).map PieceRequests.missingIndices,
            (step twoByteInfo r (.checkBlockTimeouts 0 0)).isSome)) =
      some (some [], false) := by
  refine ⟨?_, ?_⟩
  · decide +kernel
  · decide +kernel

end P2P
