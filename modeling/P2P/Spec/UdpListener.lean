import P2P.Native.UdpListener
import P2P.Spec.Tracker

/-!
# The handlers of the tracker and its one receive buffer

As long as no datagram changes what the handlers have still to read, each acts on its own datagram.
-/

namespace P2P

open Tracker List UdpAnnounceRequest

/-! ## The fields of a datagram -/

def Datagram.transactionId (d : Datagram) : UInt32 := fromBe32 (d.bytes.slice 12 4)

def UdpSent.transactionId (r : UdpSent) : UInt32 := fromBe32 (r.datagram.slice 4 4)

theorem UdpAnnounceRequest.ofBytes_take (b : Bytes) {n : Nat} (h : 98 ≤ n) :
    ofBytes (b.take n) = ofBytes b := by
  unfold ofBytes
  rw [slice_take b (by omega), slice_take b (by omega), slice_take b (by omega),
    slice_take b (by omega), slice_take b (by omega), slice_take b (by omega)]

/-! ## What holds of the handlers -/

def UdpHandler.unread (h : UdpHandler) (buffer : Bytes) : Bytes :=
  match h.stage with
  | .spawned => buffer.take h.size
  | .dispatching _ => buffer.slice 12 4

namespace UdpListener

def Spares (l : UdpListener) : Step → Prop
  | .receive d => ∀ h ∈ l.handlers, h.unread (l.buffer.receive d).val = h.unread l.buffer.val
  | _ => True

instance (l : UdpListener) (e : Step) : Decidable (l.Spares e) := by
  unfold Spares
  split <;> infer_instance

def datagrams (es : List Step) : List Datagram :=
  es.filterMap fun
    | .receive d => some d
    | _ => none

structure HandlerFaithful (ds : List Datagram) (buffer : Bytes) (h : UdpHandler) : Prop where
  cause : h.cause ∈ ds
  ip : h.ip = h.cause.ip
  port : h.port = h.cause.port
  unread : h.unread buffer = match h.stage with
    | .spawned => h.cause.received
    | .dispatching _ => h.cause.bytes.slice 12 4
  read : ∀ req, h.stage = .dispatching req → req = ofBytes h.cause.bytes

structure SentFaithful (ds : List Datagram) (r : UdpSent) : Prop where
  cause : r.cause ∈ ds
  ip : r.ip = r.cause.ip
  port : r.port = r.cause.port
  transactionId : r.transactionId = r.cause.transactionId

/-- An entry is what the datagram announces for which its handler was spawned. -/
structure RegisteredFaithful (ds : List Datagram) (u : UdpRegistered) : Prop where
  cause : u.cause ∈ ds
  ip : u.ip = u.cause.ip
  port : u.port = u.cause.port
  infoHash : u.infoHash = (ofBytes u.cause.bytes).infoHash
  addr : u.addr = compactPeerAddr u.ip (ofBytes u.cause.bytes).port
  left : u.left = (ofBytes u.cause.bytes).left.toInt64

structure Faithful (ds : List Datagram) (l : UdpListener) : Prop where
  handlers : ∀ h ∈ l.handlers, HandlerFaithful ds l.buffer.val h
  sent : ∀ r ∈ l.sent, SentFaithful ds r
  registered : ∀ u ∈ l.registered, RegisteredFaithful ds u

/-! ## Steps -/

variable {l : UdpListener} {ds : List Datagram} {h : UdpHandler} {i : Nat}

theorem take_receive (buffer : UdpBuffer) (d : Datagram) :
    (buffer.receive d).val.take d.received.length = d.received := by
  change (overwrite 0 buffer.val 0 d.received).take d.received.length = _
  unfold overwrite
  split
  · rename_i hd
    rw [isEmpty_iff.mp hd]
    rfl
  · rw [take_zero, Nat.zero_sub, replicate_zero, append_nil, nil_append, take_left]

theorem HandlerFaithful.mono {ds' : List Datagram} {buffer : Bytes}
    (hh : HandlerFaithful ds buffer h) (hsub : ds ⊆ ds') : HandlerFaithful ds' buffer h :=
  { hh with cause := hsub hh.cause }

section

variable (hl : Faithful ds l)

include hl

theorem Faithful.receive (d : Datagram) (hspares : l.Spares (.receive d)) :
    Faithful (ds ++ [d]) (l.receive d) := by
  have hsub : ds ⊆ ds ++ [d] := subset_append_left ds [d]
  have hnew : d ∈ ds ++ [d] := mem_append_right _ (mem_singleton_self d)
  constructor
  · intro h hh
    cases mem_append.mp hh with
    | inl hold =>
      -- what it has still to read is what it was before the receive
      have hf := (hl.handlers h hold).mono hsub
      exact { hf with unread := (hspares h hold).trans hf.unread }
    | inr hlast =>
      rw [mem_singleton.mp hlast]
      exact ⟨hnew, rfl, rfl, take_receive l.buffer d, nofun⟩
  · intro r hr
    have hf := hl.sent r hr
    exact { hf with cause := hsub hf.cause }
  · intro u hu
    have hf := hl.registered u hu
    exact { hf with cause := hsub hf.cause }

theorem Faithful.finish (i : Nat) : Faithful ds (l.finish i) :=
  { hl with handlers := fun h hh => hl.handlers h (mem_of_mem_eraseIdx hh) }

theorem Faithful.send {datagram : Bytes} (hr : SentFaithful ds ⟨h.ip, h.port, datagram, h.cause⟩) :
    Faithful ds (l.send h datagram) := by
  refine { hl with sent := fun r hmem => ?_ }
  cases mem_append.mp hmem with
  | inl hold => exact hl.sent r hold
  | inr hlast =>
    unfold sendTo at hlast
    split at hlast
    · rw [mem_singleton.mp hlast]
      exact hr
    · cases hlast

theorem Faithful.register (t : Tracker) {u : UdpRegistered} (hu : RegisteredFaithful ds u) :
    Faithful ds { l with tracker := t, registered := l.registered ++ [u] } := by
  refine ⟨hl.handlers, hl.sent, fun u' hmem => ?_⟩
  cases mem_append.mp hmem with
  | inl hold => exact hl.registered u' hold
  | inr hlast =>
    rw [mem_singleton.mp hlast]
    exact hu

theorem Faithful.with_tracker (t : Tracker) : Faithful ds { l with tracker := t } :=
  ⟨hl.handlers, hl.sent, hl.registered⟩

end

theorem transactionId_connect (t : Tracker) (endpoint : CompactAddr) {request : Bytes}
    (connectionId : UInt64) (hlen : 16 ≤ request.length) :
    (t.udpConnect endpoint request connectionId).1.slice 4 4 = request.slice 12 4 := by
  have hid : (request.slice 12 4).length = 4 := by
    rw [length_slice]
    omega
  change (toBe32 0 ++ request.slice 12 4 ++ toBe64 connectionId).slice ((toBe32 0).length + 0) 4 = _
  rw [append_assoc, slice_append_right]
  exact take_left' hid

theorem transactionId_announce (t : Tracker) (ip : AddressV4) (req : UdpAnnounceRequest) :
    fromBe32 ((t.udpAnnounce ip req).1.slice 4 4) = req.transactionId := by
  change fromBe32 ((udpAnnounceResponse req.transactionId _ _).slice ((toBe32 1).length + 0) 4) = _
  unfold udpAnnounceResponse
  rw [append_assoc, append_assoc, append_assoc, append_assoc, slice_append_right]
  exact (congrArg fromBe32 (take_left' (length_toBe32 _))).trans (fromBe32_toBe32 _)

theorem Faithful.start (hl : Faithful ds l) (hh : h ∈ l.handlers) (hstage : h.stage = .spawned)
    (connectionId : UInt64) : Faithful ds (l.start i h connectionId) := by
  have hf := hl.handlers h hh
  have hrequest : l.buffer.val.take h.size = h.cause.received := by
    have hunread := hf.unread
    rwa [UdpHandler.unread, hstage] at hunread
  unfold UdpListener.start
  rw [hrequest]
  dsimp only
  split
  · exact hl.finish i
  split
  · -- a connect
    rename_i hlen _
    refine Faithful.finish (Faithful.send (hl.with_tracker _) ⟨hf.cause, hf.ip, hf.port, ?_⟩) i
    change fromBe32 (slice _ 4 4) = fromBe32 _
    rw [transactionId_connect _ _ _ (by omega), Datagram.received, slice_take _ (by decide)]
  split
  · -- an announce
    split
    · exact hl.finish i
    · rename_i req haccept
      obtain ⟨hlen, hreq⟩ := udpAccept_eq_some haccept
      rw [Datagram.received, UdpAnnounceRequest.ofBytes_take _ (by decide)] at hreq
      refine { hl with handlers := fun h' hh' => ?_ }
      rcases mem_or_eq_of_mem_set hh' with hold | heq
      · exact hl.handlers h' hold
      · rw [heq]
        refine ⟨hf.cause, hf.ip, hf.port, ?_, fun req' h' => ?_⟩
        · -- the transaction id is in the part of the buffer that was received
          change l.buffer.val.slice 12 4 = h.cause.bytes.slice 12 4
          have hsize : 98 ≤ h.size := by
            rw [← hrequest, length_take] at hlen
            omega
          rw [← slice_take l.buffer.val (n := h.size) (by omega), hrequest,
            Datagram.received, slice_take _ (by decide)]
        · rw [← UdpHandlerStage.dispatching.inj h']
          exact hreq
  · exact hl.finish i

theorem Faithful.resume (hl : Faithful ds l) (hh : h ∈ l.handlers) {req : UdpAnnounceRequest}
    (hstage : h.stage = .dispatching req) : Faithful ds (l.resume i h req) := by
  have hf := hl.handlers h hh
  have hid : l.buffer.val.slice 12 4 = h.cause.bytes.slice 12 4 := by
    have hunread := hf.unread
    rwa [UdpHandler.unread, hstage] at hunread
  have hreq := hf.read req hstage
  subst hreq
  refine Faithful.finish (Faithful.send (hl.register _ ?_) ⟨hf.cause, hf.ip, hf.port, ?_⟩) i
  · exact ⟨hf.cause, hf.ip, hf.port, rfl, rfl, rfl⟩
  · refine (transactionId_announce l.tracker h.ip _).trans ?_
    change fromBe32 (l.buffer.val.slice 12 4) = _
    rw [hid]
    rfl

theorem datagrams_concat_other {es : List Step} {e : Step} (he : datagrams [e] = []) :
    datagrams (es ++ [e]) = datagrams es := by
  unfold datagrams at he ⊢
  rw [filterMap_append, he, append_nil]

theorem Faithful.step {es : List Step} {e : Step} {l' : UdpListener}
    (hl : Faithful (datagrams es) l) (hspares : l.Spares e) (hstep : l.step e = some l') :
    Faithful (datagrams (es ++ [e])) l' := by
  cases e with simp only [UdpListener.step] at hstep
  | receive d =>
    rw [← Option.some.inj hstep, datagrams, filterMap_append]
    exact hl.receive d hspares
  | start i connectionId =>
    rw [datagrams_concat_other rfl]
    split at hstep
    · cases hstep
    · rename_i h hget
      split at hstep
      · rename_i hstage
        cases hstep
        exact hl.start (mem_of_getElem? hget) hstage connectionId
      · cases hstep
  | resume i =>
    rw [datagrams_concat_other rfl]
    split at hstep
    · cases hstep
    · rename_i h hget
      split at hstep
      · cases hstep
      · rename_i req hstage
        cases hstep
        exact hl.resume (mem_of_getElem? hget) hstage
  | http | cleanup | wait =>
    rw [← Option.some.inj hstep, datagrams_concat_other rfl]
    exact hl.with_tracker _

/-! ## Runs -/

/-- While no datagram changes what a handler has still to read, every response and every entry
    belong to the datagram for which the handler was spawned. -/
theorem udp_requests_separate {t : Tracker} {es : List Step} {l : UdpListener}
    (hrun : runSteps step es { tracker := t } = some l)
    (hspares : StepsMeet step Spares es { tracker := t }) :
    (∀ r ∈ l.sent, SentFaithful (datagrams es) r) ∧
      ∀ u ∈ l.registered, RegisteredFaithful (datagrams es) u := by
  have hl : Faithful (datagrams es) l :=
    runSteps_history (I := fun es l => Faithful (datagrams es) l)
      (fun _ _ _ _ hok hstep hI => hI.step hok hstep) hspares hrun ⟨nofun, nofun, nofun⟩
  exact ⟨hl.sent, hl.registered⟩

def connectFrom (ip : AddressV4) (transactionId : UInt32) : Datagram :=
  ⟨ip, 6881, toBe64 0x41727101980 ++ toBe32 0 ++ toBe32 transactionId⟩

def announceFrom (ip : AddressV4) (transactionId : UInt32) : Datagram :=
  ⟨ip, 6881, toBe64 7 ++ toBe32 1 ++ toBe32 transactionId ++ List.replicate 20 97 ++
    List.replicate 20 98 ++ toBe64 0 ++ toBe64 5 ++ toBe64 0 ++ toBe32 2 ++ toBe32 0 ++
    toBe32 0 ++ toBe32 0 ++ toBe16 51413⟩

def separateRequests : List Step :=
  [.receive (connectFrom ⟨10, 0, 0, 1⟩ 1), .start 0 7, .receive (connectFrom ⟨10, 0, 0, 2⟩ 2),
    .start 0 8, .receive (announceFrom ⟨10, 0, 0, 1⟩ 3), .start 0 0, .resume 0]

theorem udp_requests_separate_announce :
    ∃ l, runSteps step separateRequests { tracker := { now := 0 } } = some l ∧
      l.sent.length = 3 ∧ l.registered.length = 1 ∧
      (∀ r ∈ l.sent, SentFaithful (datagrams separateRequests) r) ∧
      ∀ u ∈ l.registered, RegisteredFaithful (datagrams separateRequests) u := by
  have hcounts : (runSteps step separateRequests { tracker := { now := 0 } }).map
      (fun l => (l.sent.length, l.registered.length)) = some (3, 1) := by decide +kernel
  obtain ⟨l, hrun, hlen⟩ := Option.map_eq_some_iff.mp hcounts
  obtain ⟨hsent, hregistered⟩ := Prod.mk.inj hlen
  exact ⟨l, hrun, hsent, hregistered, udp_requests_separate hrun (by decide +kernel)⟩

/-- Two connects are received before the first handler starts: the response to the first client has
    the transaction id of the second. -/
theorem udp_requests_mix :
    ∃ l, runSteps step
        [.receive (connectFrom ⟨10, 0, 0, 1⟩ 1), .receive (connectFrom ⟨10, 0, 0, 2⟩ 2), .start 0 7]
        { tracker := { now := 0 } } = some l ∧
      l.sent.map (fun r => (r.ip, r.transactionId)) = [(⟨10, 0, 0, 1⟩, 2)] :=
  ⟨_, rfl, by decide +kernel⟩

end UdpListener

end P2P
