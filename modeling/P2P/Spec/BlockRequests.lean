import P2P.ForStd.Tasks
import P2P.Native.BlockRequests

/-!
# Requests on their way

A block with owners is left alone by the resumer, and a block without a request time by the timeout
pass.
-/

namespace P2P

open List Option

/-! ## The queue of a connection -/

namespace PeerConnection

variable (c : PeerConnection)

theorem flushLoop_suffix (queue : List RequestPayload) (c : PeerConnection) :
    (flushLoop queue c).pendingRequests <:+ queue := by
  induction queue generalizing c with
  | nil => exact suffix_refl []
  | cons req queue ih =>
    unfold flushLoop
    split
    · exact suffix_refl _
    · exact (ih _).trans (suffix_cons req queue)

theorem flushPendingRequests_suffix : c.flushPendingRequests.pendingRequests <:+
    c.pendingRequests := by
  unfold flushPendingRequests
  split
  · exact suffix_refl _
  · exact flushLoop_suffix c.pendingRequests c

theorem requestFailed_suffix (length : UInt32) :
    (c.requestFailed length).pendingRequests <:+ c.pendingRequests :=
  flushPendingRequests_suffix (c.releaseBytes length).releaseSlot

theorem receive_suffix (msg : PeerMessage) :
    (c.receive msg).pendingRequests <:+ c.pendingRequests := by
  cases msg with
  | unchoke => exact flushPendingRequests_suffix { c with peerIsChoking := false }
  | piece | reject => exact flushPendingRequests_suffix _
  | choke | interested | notInterested | haveAll | haveNone | bitfield | have_ | extendedMessage
  | request => exact suffix_refl _

theorem sendCancel_suffix (index : UInt64) (begin length : UInt32) :
    (c.sendCancel index begin length).pendingRequests <:+
      c.pendingRequests.eraseP (isQueued index begin length) := by
  unfold sendCancel
  split
  · exact flushPendingRequests_suffix _
  · next hnone =>
    have hsame : c.pendingRequests.eraseP (isQueued index begin length) = c.pendingRequests := by
      refine eraseP_of_forall_not fun req hreq hq => hnone ?_
      exact any_eq_true.mpr ⟨req, hreq, hq⟩
    rw [hsame]
    exact flushPendingRequests_suffix _

theorem pendingRequests_sendRequest (index : UInt64) (begin length : UInt32) :
    (c.sendRequest index begin length).2.pendingRequests =
      if (c.sendRequest index begin length).1 then c.pendingRequests
      else c.pendingRequests ++ [⟨index.toUInt32, begin, length⟩] := by
  unfold sendRequest
  dsimp only
  split
  · rfl
  · rfl

end PeerConnection

/-! ## Requests on their way -/

/-- A block is missing, its time is not set, and the peer is one of its owners. -/
def BlockRequests.waits (b : BlockRequests) (peerId : Bytes) : Bool :=
  !b.received && !b.armed && b.outstanding.contains peerId

namespace BlockRequests

variable {b : BlockRequests} {peerId other : Bytes}

theorem waits_iff : b.waits peerId = true ↔
    b.received = false ∧ b.armed = false ∧ peerId ∈ b.outstanding := by
  simp [waits, and_assoc]

theorem waits_of_register (h : (b.register peerId).waits other = true) :
    other = peerId ∨ b.waits other = true := by
  rw [waits_iff] at h ⊢
  obtain ⟨hreceived, harmed, hmem⟩ := h
  simp only [register] at hreceived harmed hmem
  split at hmem
  · exact .inr ⟨hreceived, harmed, hmem⟩
  · rcases mem_append.mp hmem with hold | hnew
    · exact .inr ⟨hreceived, harmed, hold⟩
    · exact .inl (mem_singleton.mp hnew)

theorem not_waits_recordRequestSent : ¬ (b.recordRequestSent peerId).waits other = true := by
  intro h
  rw [waits_iff] at h
  unfold recordRequestSent at h
  split at h
  · next hreceived => simp [hreceived] at h
  · simp at h

theorem isEmpty_filter_of_mem (h : other ∈ b.outstanding.filter (· ≠ peerId)) :
    (b.outstanding.filter (· ≠ peerId)).isEmpty = false :=
  isEmpty_eq_false_iff.mpr (ne_nil_of_mem h)

theorem waits_of_dropPeer (h : (b.dropPeer peerId).waits other = true) :
    other ≠ peerId ∧ b.waits other = true := by
  rw [waits_iff] at h ⊢
  obtain ⟨hreceived, harmed, hmem⟩ := h
  unfold dropPeer at hreceived harmed hmem
  dsimp only at hreceived harmed hmem
  rw [isEmpty_filter_of_mem hmem] at harmed
  obtain ⟨hold, hne⟩ := mem_filter.mp hmem
  exact ⟨of_decide_eq_true hne, hreceived, harmed, hold⟩

theorem waits_of_reject (h : (b.reject peerId).waits other = true) : b.waits other = true := by
  rw [waits_iff] at h ⊢
  obtain ⟨hreceived, harmed, hmem⟩ := h
  unfold reject at hreceived harmed hmem
  dsimp only at hreceived harmed hmem
  rw [isEmpty_filter_of_mem hmem] at harmed
  exact ⟨hreceived, harmed, (mem_filter.mp hmem).1⟩

theorem not_waits_clear : ¬ b.clear.waits other = true := by
  simp [waits_iff, clear]

end BlockRequests

def RequestTask.Asks (k : Nat) (req : RequestPayload) : RequestTask → Prop
  | .send k' req' => k' = k ∧ req' = req
  | .write k' req' _ => k' = k ∧ req' = req
  | _ => False

def RequestTask.request? (k : Nat) : RequestTask → Option RequestPayload
  | .send k' req | .write k' req _ => if k' = k then some req else none
  | _ => none

def RequestTask.hasDropped : RequestTask → Bool
  | .choke _ handled => handled
  | .disconnect _ cleaned => cleaned
  | _ => false

namespace RequestTask

variable {t : RequestTask} {tasks new : List RequestTask} {k : Nat}

theorem Asks.request? {req : RequestPayload} (h : t.Asks k req) : t.request? k = some req := by
  cases t with
  | send k' req' | write k' req' flushed =>
    obtain ⟨rfl, rfl⟩ := h
    exact if_pos rfl
  | tryPiece _ _ | place _ _ _ _ | cancel _ _ | choke _ _ | disconnect _ _ => exact h.elim

theorem hasDropped_nil : ∀ t ∈ ([] : List RequestTask), t.hasDropped = false :=
  fun _ ht => absurd ht not_mem_nil

theorem hasDropped_singleton (h : t.hasDropped = false) : ∀ t' ∈ [t], t'.hasDropped = false := by
  intro t' ht'
  rw [mem_singleton.mp ht']
  exact h

theorem hasDropped_placeRest (piece number : Nat) (blocks : List Nat) :
    ∀ t ∈ placeRest piece number blocks, t.hasDropped = false := by
  cases blocks with
  | nil => exact hasDropped_nil
  | cons block blocks => exact hasDropped_singleton rfl

variable {reqs : List RequestPayload}

theorem hasDropped_sends : ∀ t ∈ reqs.map (send k), t.hasDropped = false := by
  intro t ht
  obtain ⟨req, -, rfl⟩ := mem_map.mp ht
  rfl

theorem hasDropped_writes : ∀ t ∈ reqs.map (write k · true), t.hasDropped = false := by
  intro t ht
  obtain ⟨req, -, rfl⟩ := mem_map.mp ht
  rfl

theorem mem_of_hasDropped (hnew : ∀ t ∈ new, t.hasDropped = false) (ht : t ∈ tasks ++ new)
    (h : t.hasDropped = true) : t ∈ tasks := by
  rcases mem_append.mp ht with hold | hin
  · exact hold
  · rw [hnew t hin] at h
    cases h

end RequestTask

namespace RequestRun

variable {info : TorrentInfo} {r r' : RequestRun}

open RequestTask

def blockAt (r : RequestRun) (piece block : Nat) : Option BlockRequests :=
  (r.inProgress piece).bind (·.blocks[block]?)

def waits (r : RequestRun) (piece block : Nat) (peerId : Bytes) : Bool :=
  (r.blockAt piece block).any (·.waits peerId)

/-- The connection is registered, and `on_disconnect` has not taken its peer off the
    blocks. -/
def Live (r : RequestRun) (k : Nat) (peerId : Bytes) : Prop :=
  r.connections.get? peerId = some k ∧ .disconnect k true ∉ r.tasks

instance Live.decidable (r : RequestRun) (k : Nat) (peerId : Bytes) : Decidable (r.Live k peerId) :=
  inferInstanceAs (Decidable (_ ∧ _))

def Holds (r : RequestRun) (k : Nat) (peer : RequestPeer) (req : RequestPayload) : Prop :=
  (∃ t ∈ r.tasks, t.Asks k req) ∨ req ∈ peer.conn.pendingRequests

def Serves (r : RequestRun) (k piece block : Nat) (peerId : Bytes) : Prop :=
  r.Live k peerId ∧ ∃ peer, r.peers[k]? = some peer ∧ peer.peerId = peerId ∧
    ∃ req : RequestPayload, req.piece = piece ∧ req.block = block ∧ r.Holds k peer req

variable {k : Nat} {peer : RequestPeer} {req : RequestPayload}

theorem Holds.mono (h : r.Holds k peer req) (htasks : ∀ t ∈ r.tasks, t.Asks k req → t ∈ r'.tasks) :
    r'.Holds k peer req := by
  rcases h with ⟨t, ht, hask⟩ | hqueued
  · exact .inl ⟨t, htasks t ht hask, hask⟩
  · exact .inr hqueued

structure Covered (r : RequestRun) : Prop where
  served : ∀ piece block peerId, r.waits piece block peerId = true →
    ∃ k, r.Serves k piece block peerId
  choked : ∀ k peer, .choke k true ∈ r.tasks → r.peers[k]? = some peer →
    r.connections.get? peer.peerId = some k →
    ∀ piece block, ¬ r.waits piece block peer.peerId = true

variable {piece block : Nat} {peerId : Bytes}

theorem waits_iff : r.waits piece block peerId = true ↔
    ∃ b, r.blockAt piece block = some b ∧ b.waits peerId = true :=
  any_eq_true _ _

theorem blockAt_modifyBlock (r : RequestRun) (piece block : Nat)
    (f : BlockRequests → BlockRequests) (piece' block' : Nat) :
    (r.modifyBlock piece block f).blockAt piece' block' =
      if piece' = piece ∧ block' = block then (r.blockAt piece block).map f
      else r.blockAt piece' block' := by
  unfold blockAt modifyBlock
  dsimp only
  by_cases hpiece : piece' = piece
  · subst hpiece
    rw [Function.update_self]
    cases r.inProgress piece' with
    | none => simp
    | some p =>
      by_cases hblock : block' = block
      · simp [hblock]
      · simp [hblock, Ne.symm hblock]
  · simp [hpiece]

theorem blockAt_dropPeer (r : RequestRun) (peerId : Bytes) (piece block : Nat) :
    (r.dropPeer peerId).blockAt piece block = (r.blockAt piece block).map (·.dropPeer peerId) := by
  unfold blockAt dropPeer
  dsimp only
  cases r.inProgress piece with
  | none => rfl
  | some p => exact getElem?_map

/-! ## Steps that keep what is on its way -/

structure Keeps (r r' : RequestRun) : Prop where
  waits : ∀ piece block peerId, r'.waits piece block peerId = true →
    r.waits piece block peerId = true
  serves : ∀ k piece block peerId, r'.waits piece block peerId = true →
    r.Serves k piece block peerId → r'.Serves k piece block peerId
  choked : ∀ k peer, .choke k true ∈ r'.tasks → r'.peers[k]? = some peer →
    r'.connections.get? peer.peerId = some k → .choke k true ∈ r.tasks ∧
      r.connections.get? peer.peerId = some k ∧
      ∃ peer₀, r.peers[k]? = some peer₀ ∧ peer₀.peerId = peer.peerId

theorem Keeps.refl (r : RequestRun) : Keeps r r where
  waits _ _ _ h := h
  serves _ _ _ _ _ h := h
  choked _ peer hc hp hr := ⟨hc, hr, peer, hp, rfl⟩

theorem Keeps.trans {r₁ : RequestRun} (h₁ : Keeps r r₁) (h₂ : Keeps r₁ r') : Keeps r r' where
  waits piece block peerId h := h₁.waits _ _ _ (h₂.waits _ _ _ h)
  serves k piece block peerId hw hs :=
    h₂.serves _ _ _ _ hw (h₁.serves _ _ _ _ (h₂.waits _ _ _ hw) hs)
  choked k peer hc hp hr := by
    obtain ⟨hc₁, hr₁, peer₁, hp₁, hid₁⟩ := h₂.choked k peer hc hp hr
    rw [← hid₁] at hr₁ ⊢
    exact h₁.choked k peer₁ hc₁ hp₁ hr₁

theorem Covered.of_keeps (h : Covered r) (hk : Keeps r r') : Covered r' where
  served piece block peerId hw := by
    obtain ⟨k, hs⟩ := h.served _ _ _ (hk.waits _ _ _ hw)
    exact ⟨k, hk.serves _ _ _ _ hw hs⟩
  choked k peer hc hp hr piece block hw := by
    obtain ⟨hc₀, hr₀, peer₀, hp₀, hid⟩ := hk.choked k peer hc hp hr
    rw [← hid] at hr₀ hw
    exact h.choked k peer₀ hc₀ hp₀ hr₀ piece block (hk.waits _ _ _ hw)

section Tasks

variable {tasks : List RequestTask}

theorem keeps_tasks (hdropped : ∀ t ∈ tasks, t.hasDropped = true → t ∈ r.tasks)
    (hasks : ∀ t ∈ r.tasks, ∀ k req peer, t.Asks k req → r.peers[k]? = some peer →
      r.Live k peer.peerId → r.waits req.piece req.block peer.peerId = true →
      ({ r with tasks := tasks } : RequestRun).Holds k peer req) :
    Keeps r { r with tasks := tasks } where
  waits piece block peerId h := h
  serves k piece block peerId hw hs := by
    obtain ⟨hlive, peer, hpeer, rfl, req, rfl, rfl, hholds⟩ := hs
    refine ⟨⟨hlive.1, fun hmem => hlive.2 (hdropped _ hmem rfl)⟩, peer, hpeer, rfl,
      req, rfl, rfl, ?_⟩
    rcases hholds with ⟨t, ht, hask⟩ | hqueued
    · exact hasks t ht k req peer hask hpeer hlive hw
    · exact .inr hqueued
  choked k peer hc hp hr := ⟨hdropped _ hc rfl, hr, peer, hp, rfl⟩

variable {new : List RequestTask}

theorem keeps_spawn (hnew : ∀ t ∈ new, t.hasDropped = false) : Keeps r (r.spawn new) := by
  refine keeps_tasks (fun t ht => mem_of_hasDropped hnew ht) fun t ht k req peer hask _ _ _ => ?_
  exact .inl ⟨t, mem_append_left _ ht, hask⟩

variable {i : Nat} {t : RequestTask}

section

variable (htask : r.tasks[i]? = some t) (hnew : ∀ t ∈ new, t.hasDropped = false)

include htask hnew

theorem keeps_resume
    (hasks : ∀ k req peer, t.Asks k req → r.peers[k]? = some peer → r.Live k peer.peerId →
      r.waits req.piece req.block peer.peerId = true → (r.resume i new).Holds k peer req) :
    Keeps r (r.resume i new) := by
  refine keeps_tasks (fun t' ht' hd => ?_) fun t' ht' k req peer hask hpeer hlive hw => ?_
  · exact mem_of_mem_eraseIdx (mem_of_hasDropped hnew ht' hd)
  · by_cases heq : t' = t
    · subst heq
      exact hasks k req peer hask hpeer hlive hw
    · exact .inl ⟨t', mem_append_left _ (mem_eraseIdx_of_ne ht' htask heq), hask⟩

theorem keeps_resume_of_not_asks (ht : ∀ k req, ¬ t.Asks k req) : Keeps r (r.resume i new) :=
  keeps_resume htask hnew fun k req _ hask => absurd hask (ht k req)

end

end Tasks

variable {f : BlockRequests → BlockRequests}

theorem keeps_modifyBlock (hf : ∀ b peerId, (f b).waits peerId = true → b.waits peerId = true) :
    Keeps r (r.modifyBlock piece block f) where
  waits piece' block' peerId h := by
    rw [waits_iff] at h ⊢
    obtain ⟨b', hb', hw⟩ := h
    rw [blockAt_modifyBlock] at hb'
    split at hb'
    · next heq =>
      obtain ⟨b, hb, rfl⟩ := map_eq_some_iff.mp hb'
      exact ⟨b, heq.1 ▸ heq.2 ▸ hb, hf b peerId hw⟩
    · exact ⟨b', hb', hw⟩
  serves k piece' block' peerId _ hs := hs
  choked k peer hc hp hr := ⟨hc, hr, peer, hp, rfl⟩

theorem not_waits_modifyBlock (hf : ∀ b, ¬ (f b).waits peerId = true) :
    ¬ (r.modifyBlock piece block f).waits piece block peerId = true := by
  rw [waits_iff, blockAt_modifyBlock, if_pos ⟨rfl, rfl⟩]
  rintro ⟨b', hb', hw⟩
  obtain ⟨b, -, rfl⟩ := map_eq_some_iff.mp hb'
  exact hf b hw

variable {queue : List RequestPayload} {conn : PeerConnection}

theorem keeps_setConn (hpeer : r.peers[k]? = some peer)
    (hheld : ∀ req ∈ peer.conn.pendingRequests, r.Live k peer.peerId →
      r.waits req.piece req.block peer.peerId = true →
      req ∈ conn.pendingRequests ∨ req ∈ queue.take (queue.length - conn.pendingRequests.length)) :
    Keeps r (r.setConn k queue conn) where
  waits piece block peerId h := h
  serves k' piece block peerId hw hs := by
    obtain ⟨hlive, peer', hpeer', rfl, req, rfl, rfl, hholds⟩ := hs
    have hlive' : (r.setConn k queue conn).Live k' peer'.peerId :=
      ⟨hlive.1, fun hmem => hlive.2 (mem_of_hasDropped hasDropped_writes hmem rfl)⟩
    by_cases hk : k' = k
    · subst hk
      obtain rfl := some.inj (hpeer.symm.trans hpeer')
      refine ⟨hlive', { peer with conn := conn }, ?_, rfl, req, rfl, rfl, ?_⟩
      · simp [setConn, hpeer]
      · rcases hholds with ⟨t, ht, hask⟩ | hqueued
        · exact .inl ⟨t, mem_append_left _ ht, hask⟩
        · rcases hheld req hqueued hlive hw with hkept | htaken
          · exact .inr hkept
          · -- the flush has spawned the write
            exact .inl ⟨_, mem_append_right _ (mem_map_of_mem htaken), rfl, rfl⟩
    · refine ⟨hlive', peer', ?_, rfl, req, rfl, rfl, ?_⟩
      · simp [setConn, Ne.symm hk, hpeer']
      · exact hholds.mono fun t ht _ => mem_append_left _ ht
  choked k' peer' hc hp hr := by
    refine ⟨mem_of_hasDropped hasDropped_writes hc rfl, hr, ?_⟩
    simp only [setConn, getElem?_modify] at hp
    obtain ⟨peer₀, hp₀, rfl⟩ := map_eq_some_iff.mp hp
    refine ⟨peer₀, hp₀, ?_⟩
    split
    · rfl
    · rfl

theorem isQueued_same {req' : RequestPayload}
    (h : PeerConnection.isQueued req.index.toUInt64 req.begin req.length req' = true) :
    req'.piece = req.piece ∧ req'.block = req.block := by
  simp only [PeerConnection.isQueued, Bool.and_eq_true, beq_iff_eq] at h
  obtain ⟨⟨hindex, hbegin⟩, -⟩ := h
  have hindex' : req'.index.toNat = req.index.toNat := by
    have hnat := congrArg UInt64.toNat hindex
    simpa using hnat
  exact ⟨hindex', by unfold RequestPayload.block; rw [hbegin]⟩

theorem mem_of_suffix {rest : List RequestPayload} (h : rest <:+ queue) (hreq : req ∈ queue) :
    req ∈ rest ∨ req ∈ queue.take (queue.length - rest.length) := by
  rw [← suffix_iff_eq_append.mp h] at hreq
  exact (mem_append.mp hreq).symm

theorem keeps_flush (hpeer : r.peers[k]? = some peer)
    (h : conn.pendingRequests <:+ peer.conn.pendingRequests) :
    Keeps r (r.setConn k peer.conn.pendingRequests conn) :=
  keeps_setConn hpeer fun _ hreq _ _ => mem_of_suffix h hreq

theorem keeps_sendCancelForBlock (piece block : Nat) (excludePeerId : Bytes) :
    Keeps r (r.sendCancelForBlock info piece block excludePeerId) := by
  unfold sendCancelForBlock
  split
  · exact .refl r
  · split
    · exact .refl r
    · next b hb =>
      refine Keeps.trans (keeps_modifyBlock fun b peerId h => ?_) (keeps_spawn fun t ht => ?_)
      · exact absurd h BlockRequests.not_waits_clear
      · obtain ⟨peerId, -, hsome⟩ := mem_filterMap.mp ht
        obtain ⟨k, -, rfl⟩ := map_eq_some_iff.mp hsome
        rfl

/-! ## Peers that are taken off the blocks -/

variable {other : Bytes}

theorem waits_of_dropPeer (h : (r.dropPeer peerId).waits piece block other = true) :
    other ≠ peerId ∧ r.waits piece block other = true := by
  rw [waits_iff, blockAt_dropPeer] at h
  obtain ⟨b', hb', hw⟩ := h
  obtain ⟨b, hb, rfl⟩ := map_eq_some_iff.mp hb'
  obtain ⟨hne, hold⟩ := BlockRequests.waits_of_dropPeer hw
  exact ⟨hne, waits_iff.mpr ⟨b, hb, hold⟩⟩

variable {i : Nat}

theorem Covered.dropPeer (h : Covered r) {t t' : RequestTask} (hpeer : r.peers[k]? = some peer)
    (htask : r.tasks[i]? = some t) (ht : ∀ k req, ¬ t.Asks k req)
    (ht' : t' = .choke k true ∨ t' = .disconnect k true) :
    Covered ((r.resume i [t']).dropPeer peer.peerId) where
  served piece block peerId hw := by
    obtain ⟨hne, hw₀⟩ := waits_of_dropPeer hw
    obtain ⟨k', hlive, peer', hpeer', rfl, req, hpiece, hblock, hholds⟩ :=
      h.served piece block peerId hw₀
    refine ⟨k', ⟨hlive.1, fun hmem => ?_⟩, peer', hpeer', rfl, req, hpiece, hblock, ?_⟩
    · rcases mem_append.mp hmem with hold | hnew
      · exact hlive.2 (mem_of_mem_eraseIdx hold)
      · -- the other connection has another peer
        rw [mem_singleton] at hnew
        rcases ht' with rfl | rfl
        · cases hnew
        · cases hnew
          exact hne (congrArg RequestPeer.peerId (some.inj (hpeer'.symm.trans hpeer)))
    · refine hholds.mono fun t₀ ht₀ hask => ?_
      have hne₀ : t₀ ≠ t := fun heq => ht k' req (heq ▸ hask)
      exact mem_append_left _ (mem_eraseIdx_of_ne ht₀ htask hne₀)
  choked k' peer' hc hp hr piece block hw := by
    obtain ⟨hne, hw₀⟩ := waits_of_dropPeer hw
    rcases mem_append.mp hc with hold | hnew
    · exact h.choked k' peer' (mem_of_mem_eraseIdx hold) hp hr piece block hw₀
    · rw [mem_singleton] at hnew
      rcases ht' with rfl | rfl
      · cases hnew
        exact hne (congrArg RequestPeer.peerId (some.inj (hp.symm.trans hpeer)))
      · cases hnew

/-! ## Connections -/

theorem Covered.connect (h : Covered r) (hidle : ∀ piece block, ¬ r.waits piece block peerId = true)
    : Covered { r with
      peers := r.peers ++ [{ peerId := peerId }]
      connections := r.connections.insert peerId r.peers.length } where
  served piece block other hw := by
    obtain ⟨k, ⟨hconn, hdisc⟩, peer, hpeer, rfl, hreq⟩ := h.served piece block other hw
    have hne : peer.peerId ≠ peerId := by
      rintro rfl
      exact hidle piece block hw
    refine ⟨k, ⟨?_, hdisc⟩, peer, ?_, rfl, hreq⟩
    · rw [OrdMap.get?_insert, if_neg hne]
      exact hconn
    · rw [List.getElem?_append_left (List.getElem?_eq_some_iff.mp hpeer).1]
      exact hpeer
  choked k peer hc hp hr piece block hw := by
    by_cases heq : peer.peerId = peerId
    · exact hidle piece block (heq ▸ hw)
    · have hr' := hr
      rw [OrdMap.get?_insert, if_neg heq] at hr'
      rcases Nat.lt_or_ge k r.peers.length with hlt | hge
      · rw [getElem?_append_left hlt] at hp
        exact h.choked k peer hc hp hr' piece block hw
      · -- the new connection is the one of the new peer
        rw [List.getElem?_append_right hge] at hp
        obtain ⟨hlt, hget⟩ := List.getElem?_eq_some_iff.mp hp
        have hzero : k - r.peers.length = 0 := by simpa using hlt
        simp only [hzero, List.getElem_cons_zero] at hget
        exact absurd (congrArg RequestPeer.peerId hget).symm heq

theorem Covered.disconnect (h : Covered r) (htask : r.tasks[i]? = some (.disconnect k true))
    (hown : ∀ k', r.connections.get? peer.peerId = some k' → k' = k) :
    Covered { r.resume i [] with connections := r.connections.erase peer.peerId } where
  served piece block peerId hw := by
    obtain ⟨k', ⟨hconn, hdisc⟩, peer', hpeer', rfl, req, hpiece, hblock, hholds⟩ :=
      h.served piece block peerId hw
    have hne : peer'.peerId ≠ peer.peerId := by
      intro heq
      rw [heq] at hconn
      rw [hown k' hconn] at hdisc
      -- the connection would be live while its `on_disconnect` ends
      exact hdisc (mem_of_getElem? htask)
    refine ⟨k', ⟨?_, fun hmem => hdisc ?_⟩, peer', hpeer', rfl, req, hpiece, hblock, ?_⟩
    · rw [OrdMap.get?_erase, if_neg hne]
      exact hconn
    · exact mem_of_mem_eraseIdx (mem_of_hasDropped hasDropped_nil hmem rfl)
    · refine hholds.mono fun t ht hask => ?_
      have hne' : t ≠ .disconnect k true := by
        rintro rfl
        exact hask
      exact mem_append_left _ (mem_eraseIdx_of_ne ht htask hne')
  choked k' peer' hc hp hr piece block hw := by
    obtain ⟨-, hr'⟩ := OrdMap.get?_erase_eq_some hr
    have hc' := mem_of_mem_eraseIdx (mem_of_hasDropped hasDropped_nil hc rfl)
    exact h.choked k' peer' hc' hp hr' piece block hw

/-! ## New owners -/

/-- A peer can be entered: its connection is live, and no `Choke` that took its peer off the blocks
    is handled. -/
def Ready (r : RequestRun) (k : Nat) (peer : RequestPeer) : Prop :=
  r.Live k peer.peerId ∧ .choke k true ∉ r.tasks

instance Ready.decidable (r : RequestRun) (k : Nat) (peer : RequestPeer) :
    Decidable (r.Ready k peer) :=
  inferInstanceAs (Decidable (_ ∧ _))

theorem ready_resume {new : List RequestTask} (h : r.Ready k peer)
    (hnew : ∀ t ∈ new, t.hasDropped = false) : (r.resume i new).Ready k peer := by
  have hmem : ∀ t, t.hasDropped = true → t ∈ (r.resume i new).tasks → t ∈ r.tasks :=
    fun t hd ht => mem_of_mem_eraseIdx (mem_of_hasDropped hnew ht hd)
  exact ⟨⟨h.1.1, fun ht => h.1.2 (hmem _ rfl ht)⟩, fun ht => h.2 (hmem _ rfl ht)⟩

theorem Covered.register (h : Covered r) (hpeer : r.peers[k]? = some peer) (hready : r.Ready k peer)
    (requests : List RequestPayload) (htasks : r'.tasks = r.tasks ++ requests.map (.send k))
    (hpeers : r'.peers = r.peers) (hconns : r'.connections = r.connections)
    (hwaits : ∀ piece block other, r'.waits piece block other = true →
      r.waits piece block other = true ∨ other = peer.peerId ∧
      ∃ req ∈ requests, req.piece = piece ∧ req.block = block) : Covered r' := by
  have hdropped : ∀ t ∈ r'.tasks, t.hasDropped = true → t ∈ r.tasks := by
    intro t ht
    rw [htasks] at ht
    exact mem_of_hasDropped hasDropped_sends ht
  constructor
  · intro piece block other hw
    rcases hwaits piece block other hw with hold | ⟨rfl, req, hreq, hpiece, hblock⟩
    · obtain ⟨k', ⟨hconn, hdisc⟩, peer', hpeer', hid, req, hpiece, hblock, hholds⟩ :=
        h.served piece block other hold
      refine ⟨k', ⟨hconns ▸ hconn, fun hmem => hdisc (hdropped _ hmem rfl)⟩, peer', hpeers ▸ hpeer',
        hid, req, hpiece, hblock, ?_⟩
      exact hholds.mono fun t ht _ => htasks ▸ mem_append_left _ ht
    · refine ⟨k, ⟨hconns ▸ hready.1.1, fun hmem => hready.1.2 (hdropped _ hmem rfl)⟩, peer,
        hpeers ▸ hpeer, rfl, req, hpiece, hblock, .inl ⟨.send k req, ?_, rfl, rfl⟩⟩
      exact htasks ▸ mem_append_right _ (mem_map_of_mem hreq)
  · intro k' peer' hc hp hr piece block hw
    rw [hpeers] at hp
    rw [hconns] at hr
    have hc' := hdropped _ hc rfl
    rcases hwaits piece block peer'.peerId hw with hold | ⟨heq, -⟩
    · exact h.choked k' peer' hc' hp hr piece block hold
    · -- there is one connection for the id
      rw [heq] at hr
      obtain rfl := some.inj (hr.symm.trans hready.1.1)
      exact hready.2 hc'

theorem piece_blockRequest (h : piece < 2 ^ 32) (size block : Nat) :
    (blockRequest size piece block).piece = piece :=
  UInt32.toNat_ofNat_of_lt h

theorem block_blockRequest (h : block * blockSize < 2 ^ 32) (size piece : Nat) :
    (blockRequest size piece block).block = block := by
  have hoffset : (blockRequest size piece block).begin.toNat = block * blockSize := by
    show (UInt32.ofNat (u32 (block * blockSize))).toNat = block * blockSize
    unfold u32
    rw [Nat.mod_eq_of_lt h]
    exact UInt32.toNat_ofNat_of_lt h
  unfold RequestPayload.block
  rw [hoffset]
  exact Nat.mul_div_cancel block (by decide)

def totalBlocks (info : TorrentInfo) (r : RequestRun) (piece : Nat) : Nat :=
  match r.inProgress piece with
  | some p => p.blocks.length
  | none => InProgressPiece.blockCount (r.pieceSize info piece)

theorem length_seed (info : TorrentInfo) (r : RequestRun) (piece : Nat) :
    ((r.inProgress piece).getD {
      number := r.nextNumber
      blocks := replicate
        (InProgressPiece.blockCount (r.pieceSize info piece)) {} }).blocks.length =
      r.totalBlocks info piece := by
  unfold totalBlocks
  cases r.inProgress piece with
  | none => exact length_replicate
  | some p => rfl

variable {piece' : Nat}

theorem waits_of_seedPiece (h : (r.seedPiece info piece k peerId).waits piece' block other = true) :
    r.waits piece' block other = true ∨
      other = peerId ∧ piece' = piece ∧ block < r.totalBlocks info piece := by
  rw [waits_iff] at h
  obtain ⟨b', hb', hw⟩ := h
  by_cases hpiece : piece' = piece
  · subst hpiece
    simp only [blockAt, seedPiece, Function.update_self, bind_some] at hb'
    rw [getElem?_map] at hb'
    obtain ⟨b, hb, rfl⟩ := map_eq_some_iff.mp hb'
    have hlt := (List.getElem?_eq_some_iff.mp hb).1
    rw [length_seed] at hlt
    rcases BlockRequests.waits_of_register hw with rfl | hold
    · exact .inr ⟨rfl, rfl, hlt⟩
    · cases hprog : r.inProgress piece' with rw [hprog] at hb
      | some p =>
        exact .inl (waits_iff.mpr ⟨b, by rw [blockAt, hprog]; exact hb, hold⟩)
      | none =>
        -- a block of a new piece has no owners
        rw [eq_of_mem_replicate (mem_of_getElem? hb)] at hold
        cases hold
  · simp only [blockAt, seedPiece, Function.update_of_ne hpiece] at hb'
    exact .inl (waits_iff.mpr ⟨b', hb', hw⟩)

theorem Covered.seedPiece (h : Covered r) (hpeer : r.peers[k]? = some peer)
    (hready : r.Ready k peer) (hpiece : piece < 2 ^ 32)
    (hblocks : r.totalBlocks info piece * blockSize ≤ 2 ^ 32) :
    Covered (r.seedPiece info piece k peer.peerId) := by
  refine h.register hpeer hready ((range (r.totalBlocks info piece)).map
    (blockRequest (r.pieceSize info piece) piece)) ?_ rfl rfl ?_
  · rw [List.map_map, ← length_seed]
    rfl
  · intro piece' block other hw
    rcases waits_of_seedPiece hw with hold | ⟨rfl, rfl, hlt⟩
    · exact .inl hold
    · have hoffset : block * blockSize < 2 ^ 32 :=
        Nat.lt_of_lt_of_le (Nat.mul_lt_mul_of_pos_right hlt (by decide)) hblocks
      exact .inr ⟨rfl, _, mem_map_of_mem (mem_range.mpr hlt), piece_blockRequest hpiece _ _,
        block_blockRequest hoffset _ _⟩

theorem waits_of_modifyBlock_register {block' : Nat}
    (h : (r.modifyBlock piece block (·.register peerId)).waits piece' block' other = true) :
    r.waits piece' block' other = true ∨ other = peerId ∧ piece' = piece ∧ block' = block := by
  rw [waits_iff, blockAt_modifyBlock] at h
  obtain ⟨b', hb', hw⟩ := h
  split at hb'
  · next heq =>
    obtain ⟨b, hb, rfl⟩ := map_eq_some_iff.mp hb'
    rcases BlockRequests.waits_of_register hw with hnew | hold
    · exact .inr ⟨hnew, heq⟩
    · exact .inl (waits_iff.mpr ⟨b, heq.1 ▸ heq.2 ▸ hb, hold⟩)
  · exact .inl (waits_iff.mpr ⟨b', hb', hw⟩)

theorem Covered.placeBlock (h : Covered r) (hpeer : r.peers[k]? = some peer)
    (hready : r.Ready k peer) (hpiece : piece < 2 ^ 32) (hblock : block * blockSize < 2 ^ 32)
    (number : Nat) : Covered (r.placeBlock info piece number block k peer.peerId) := by
  unfold RequestRun.placeBlock
  dsimp only
  split
  · refine h.register hpeer hready [blockRequest (r.pieceSize info piece) piece block] rfl rfl rfl
      fun piece' block' other hw => ?_
    rcases waits_of_modifyBlock_register hw with hold | ⟨rfl, rfl, rfl⟩
    · exact .inl hold
    · exact .inr ⟨rfl, _, mem_singleton.mpr rfl, piece_blockRequest hpiece _ _,
        block_blockRequest hblock _ _⟩
  · -- the piece of the coroutine is no longer in progress
    exact h.of_keeps (keeps_spawn (hasDropped_singleton rfl))

end RequestRun

end P2P
