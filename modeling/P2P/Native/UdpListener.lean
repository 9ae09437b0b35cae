import P2P.Native.Tracker

/-!
# The receive loop of the tracker (`Tracker::udp_listen_loop`)

The loop receives every datagram into one buffer and spawns `handle_udp_request` with a span of it.
-/

namespace P2P

structure Datagram where
  ip : AddressV4
  port : UInt16
  bytes : Bytes
  deriving DecidableEq, Repr

def udpBufferSize : Nat := 2048

abbrev UdpBuffer := { b : Bytes // b.length = udpBufferSize }

def Datagram.received (d : Datagram) : Bytes := d.bytes.take udpBufferSize

def UdpBuffer.receive (buffer : UdpBuffer) (d : Datagram) : UdpBuffer :=
  ⟨buffer.val.overwrite 0 0 d.received, by
    rw [List.length_overwrite, buffer.property]
    rw [buffer.property, Datagram.received, List.length_take]
    omega⟩

inductive UdpHandlerStage where
  | spawned
  | dispatching (req : Tracker.UdpAnnounceRequest)
  deriving DecidableEq, Repr

structure UdpHandler where
  ip : AddressV4
  port : UInt16
  size : Nat
  stage : UdpHandlerStage
  /-- The datagram for which it was spawned; the source does not keep it. -/
  cause : Datagram
  deriving DecidableEq, Repr

structure UdpSent where
  ip : AddressV4
  port : UInt16
  datagram : Bytes
  cause : Datagram
  deriving DecidableEq, Repr

/-- An entry made in the registry, with the datagram for which its handler was spawned. -/
structure UdpRegistered where
  ip : AddressV4
  port : UInt16
  infoHash : Bytes
  addr : CompactAddr
  left : Int64
  cause : Datagram
  deriving DecidableEq, Repr

structure UdpListener where
  tracker : Tracker
  buffer : UdpBuffer := ⟨List.replicate udpBufferSize 0, List.length_replicate⟩
  handlers : List UdpHandler := []
  sent : List UdpSent := []
  registered : List UdpRegistered := []

namespace UdpListener

variable (l : UdpListener)

def receive (d : Datagram) : UdpListener :=
  { l with
    buffer := l.buffer.receive d
    handlers := l.handlers ++ [⟨d.ip, d.port, d.received.length, .spawned, d⟩] }

def finish (i : Nat) : UdpListener := { l with handlers := l.handlers.eraseIdx i }

def send (h : UdpHandler) (datagram : Bytes) : UdpListener :=
  { l with sent := l.sent ++ (sendTo datagram).toList.map (⟨h.ip, h.port, ·, h.cause⟩) }

def start (i : Nat) (h : UdpHandler) (connectionId : UInt64) : UdpListener :=
  let request := l.buffer.val.take h.size
  let endpoint := compactPeerAddr h.ip h.port
  if request.length < 16 then l.finish i
  else if Tracker.udpAction request = 0 then
    let (response, t) := l.tracker.udpConnect endpoint request connectionId
    ({ l with tracker := t }.send h response).finish i
  else if Tracker.udpAction request = 1 then
    match l.tracker.udpAccept endpoint request with
    | none => l.finish i
    | some req => { l with handlers := l.handlers.set i { h with stage := .dispatching req } }
  else l.finish i

def resume (i : Nat) (h : UdpHandler) (req : Tracker.UdpAnnounceRequest) : UdpListener :=
  let req := { req with transactionId := fromBe32 (l.buffer.val.slice 12 4) }
  let (response, t) := l.tracker.udpAnnounce h.ip req
  let entry : UdpRegistered :=
    ⟨h.ip, h.port, req.infoHash, compactPeerAddr h.ip req.port, req.left.toInt64, h.cause⟩
  ({ l with tracker := t, registered := l.registered ++ [entry] }.send h response).finish i

inductive Step where
  | receive (d : Datagram)
  /-- The handler at position `i` starts; `connectionId` is what the generator returns. -/
  | start (i : Nat) (connectionId : UInt64)
  | resume (i : Nat)
  | http (ip : AddressV4) (target : Bytes)
  | cleanup
  | wait (time : Nat)

def step (l : UdpListener) : Step → Option UdpListener
  | .receive d => some (l.receive d)
  | .start i connectionId =>
    match l.handlers[i]? with
    | none => none
    | some h =>
      match h.stage with
      | .spawned => some (l.start i h connectionId)
      | .dispatching _ => none
  | .resume i =>
    match l.handlers[i]? with
    | none => none
    | some h =>
      match h.stage with
      | .spawned => none
      | .dispatching req => some (l.resume i h req)
  | .http ip target => some { l with tracker := (l.tracker.handleRequest ip target).2 }
  | .cleanup => some { l with tracker := l.tracker.cleanup }
  | .wait time => some { l with tracker := { l.tracker with now := l.tracker.now + time } }

end UdpListener

end P2P
