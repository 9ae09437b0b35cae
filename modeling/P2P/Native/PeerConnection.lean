import P2P.ForStd.Bytes
import P2P.ForStd.Run

/-!
# A connection to a peer (`PeerConnection.cpp`)

The messages a peer sends, as `message_loop` takes them apart, and the request pipeline.
-/

namespace P2P

/-! ## Messages on the wire -/

inductive MessageType where
  | choke | unchoke | interested | notInterested | have_ | bitfield | request | piece
  | cancel | port | reject | haveNone | haveAll | allowedFast | extendedMessage
  deriving DecidableEq, Repr

def MessageType.toByte : MessageType → UInt8
  | .choke => 0
  | .unchoke => 1
  | .interested => 2
  | .notInterested => 3
  | .have_ => 4
  | .bitfield => 5
  | .request => 6
  | .piece => 7
  | .cancel => 8
  | .port => 9
  | .reject => 16
  | .haveNone => 15
  | .haveAll => 14
  | .allowedFast => 17
  | .extendedMessage => 20

def hostToNetworkLong (n : UInt32) : Bytes :=
  [(n >>> 24).toUInt8, (n >>> 16).toUInt8, (n >>> 8).toUInt8, n.toUInt8]

/-- The `uint32_t` that starts at a position of a buffer, from network byte order. -/
def networkToHostLong (data : Bytes) (pos : Nat) : UInt32 :=
  ((data.drop pos).take 4).foldl (fun n b => (n <<< 8) ||| b.toUInt32) 0

structure RequestPayload where
  index : UInt32
  begin : UInt32
  length : UInt32
  deriving DecidableEq, Repr

namespace RequestPayload

def serialize (r : RequestPayload) : Bytes :=
  hostToNetworkLong r.index ++ hostToNetworkLong r.begin ++ hostToNetworkLong r.length

def deserialize (payload : Bytes) : RequestPayload :=
  ⟨networkToHostLong payload 0, networkToHostLong payload 4, networkToHostLong payload 8⟩

end RequestPayload

inductive PeerMessage where
  | choke
  | unchoke
  | interested
  | notInterested
  | haveAll
  | haveNone
  | bitfield (payload : Bytes)
  | have_ (index : UInt32)
  | piece (index begin : UInt32) (block : Bytes)
  | extendedMessage (payload : Bytes)
  | request (req : RequestPayload)
  | reject (req : RequestPayload)
  deriving DecidableEq, Repr

def parseMessage : Bytes → Option PeerMessage
  | [] => none
  | type :: payload =>
    if type = MessageType.choke.toByte then some .choke
    else if type = MessageType.unchoke.toByte then some .unchoke
    else if type = MessageType.interested.toByte then some .interested
    else if type = MessageType.notInterested.toByte then some .notInterested
    else if type = MessageType.haveAll.toByte then some .haveAll
    else if type = MessageType.haveNone.toByte then some .haveNone
    else if type = MessageType.bitfield.toByte then some (.bitfield payload)
    else if type = MessageType.have_.toByte then
      if payload.length < 4 then none else some (.have_ (networkToHostLong payload 0))
    else if type = MessageType.piece.toByte then
      if payload.length < 8 then none
      else some (.piece (networkToHostLong payload 0) (networkToHostLong payload 4)
        (payload.drop 8))
    else if type = MessageType.extendedMessage.toByte then some (.extendedMessage payload)
    else if type = MessageType.request.toByte then
      if payload.length < 12 then none else some (.request (.deserialize payload))
    else if type = MessageType.reject.toByte then
      if payload.length < 12 then none else some (.reject (.deserialize payload))
    else none

/-! ## The connection -/

def maxOutstandingRequests : UInt64 := 500

def maxPipelineBuffer : UInt64 := 8 * 1024 * 1024

structure PeerConnection where
  amChoking : Bool := true
  peerIsChoking : Bool := true
  peerIsInterested : Bool := false
  fastExtensionSupported : Bool := false
  pendingRequests : List RequestPayload := []
  outstandingRequestCount : UInt64 := 0
  totalBytesRequested : UInt64 := 0
  totalBytesReceived : UInt64 := 0
  sent : List Bytes := []
  deriving DecidableEq, Repr

namespace PeerConnection

variable (c : PeerConnection)

def sendMessage (type : MessageType) (payload : Bytes) : PeerConnection :=
  { c with sent := c.sent ++ [type.toByte :: payload] }

def sendPiece (index begin : UInt32) (block : Bytes) : PeerConnection :=
  c.sendMessage .piece (hostToNetworkLong index ++ hostToNetworkLong begin ++ block)

def sendReject (index begin length : UInt32) : PeerConnection :=
  c.sendMessage .reject (RequestPayload.serialize ⟨index, begin, length⟩)

/-! ### The request pipeline -/

/-- `pipeline_bytes`: the bytes requested and not yet received, modulo `2 ^ 64`. -/
def pipelineBytes : UInt64 := c.totalBytesRequested - c.totalBytesReceived

def pipelineFull : Bool :=
  c.outstandingRequestCount ≥ maxOutstandingRequests || c.pipelineBytes ≥ maxPipelineBuffer

def startRequest (r : RequestPayload) : PeerConnection :=
  { c.sendMessage .request r.serialize with
    totalBytesRequested := c.totalBytesRequested + r.length.toUInt64
    outstandingRequestCount := c.outstandingRequestCount + 1 }

def flushLoop : List RequestPayload → PeerConnection → PeerConnection
  | [], c => { c with pendingRequests := [] }
  | req :: rest, c =>
    if c.pipelineFull then { c with pendingRequests := req :: rest }
    else flushLoop rest (c.startRequest req)

def flushPendingRequests : PeerConnection :=
  if c.peerIsChoking then c else flushLoop c.pendingRequests c

/-- A request that will not be answered gives its bytes back. -/
def releaseBytes (length : UInt32) : PeerConnection :=
  { c with
    totalBytesRequested :=
      if c.totalBytesRequested ≥ length.toUInt64 then c.totalBytesRequested - length.toUInt64
      else 0 }

def releaseSlot : PeerConnection :=
  { c with
    outstandingRequestCount :=
      if c.outstandingRequestCount > 0 then c.outstandingRequestCount - 1
      else c.outstandingRequestCount }

/-- `send_request` until its write is in flight. `false`: the request has been queued. -/
def sendRequest (index : UInt64) (begin length : UInt32) : Bool × PeerConnection :=
  let r : RequestPayload := ⟨index.toUInt32, begin, length⟩
  if c.pipelineFull then (false, { c with pendingRequests := c.pendingRequests ++ [r] })
  else (true, c.startRequest r)

def requestFailed (length : UInt32) : PeerConnection :=
  ((c.releaseBytes length).releaseSlot).flushPendingRequests

def onRequestCompleted (length : UInt32) : PeerConnection :=
  let received :=
    if c.totalBytesReceived + length.toUInt64 > c.totalBytesRequested then c.totalBytesRequested
    else c.totalBytesReceived + length.toUInt64
  ({ c with totalBytesReceived := received }.releaseSlot).flushPendingRequests

def onRequestRejected (length : UInt32) : PeerConnection :=
  ((c.releaseBytes length).releaseSlot).flushPendingRequests

def isQueued (index : UInt64) (begin length : UInt32) (r : RequestPayload) : Bool :=
  r.index.toUInt64 == index && r.begin == begin && r.length == length

def sendCancel (index : UInt64) (begin length : UInt32) : PeerConnection :=
  if c.pendingRequests.any (isQueued index begin length) then
    { c with
      pendingRequests := c.pendingRequests.eraseP (isQueued index begin length)
    }.flushPendingRequests
  else
    ((c.releaseSlot.releaseBytes length).flushPendingRequests).sendMessage .cancel
      (RequestPayload.serialize ⟨index.toUInt32, begin, length⟩)

/-- What `message_loop` does when the session has handled a `Choke`. -/
def freePipeline : PeerConnection :=
  { c with
    pendingRequests := []
    outstandingRequestCount := 0
    totalBytesRequested := 0
    totalBytesReceived := 0 }

/-- What `message_loop` does to the connection until the session handles the message. -/
def receive : PeerMessage → PeerConnection
  | .choke => { c with peerIsChoking := true }
  | .unchoke => { c with peerIsChoking := false }.flushPendingRequests
  | .interested => { c with peerIsInterested := true }
  | .notInterested => { c with peerIsInterested := false }
  | .piece _ _ block => c.onRequestCompleted (UInt32.ofNat block.length)
  | .reject req => c.onRequestRejected req.length
  | _ => c

end PeerConnection

/-! ## Interleavings -/

structure PipelineState where
  conn : PeerConnection
  writes : List UInt32
  handlingChoke : Bool
  deriving DecidableEq, Repr

def PipelineState.fresh : PipelineState := ⟨{}, [], false⟩

inductive PipelineStep where
  | sendRequest (index : UInt64) (begin length : UInt32)
  | writeDone (i : Nat)
  | writeFailed (i : Nat)
  | message (msg : Bytes)
  | chokeHandled
  | sendCancel (index : UInt64) (begin length : UInt32)
  deriving Repr

namespace PipelineStep

def step (s : PipelineState) : PipelineStep → Option PipelineState
  | .sendRequest index begin length =>
    let (started, conn) := s.conn.sendRequest index begin length
    some { s with conn, writes := if started then s.writes ++ [length] else s.writes }
  | .writeDone i =>
    if i < s.writes.length then some { s with writes := s.writes.eraseIdx i } else none
  | .writeFailed i =>
    match s.writes[i]? with
    | some length =>
      some { s with conn := s.conn.requestFailed length, writes := s.writes.eraseIdx i }
    | none => none
  | .message msg =>
    if s.handlingChoke then none
    else match parseMessage msg with
      | none => some s
      | some m => some { s with conn := s.conn.receive m, handlingChoke := m = .choke }
  | .chokeHandled =>
    if s.handlingChoke then some { s with conn := s.conn.freePipeline, handlingChoke := false }
    else none
  | .sendCancel index begin length => some { s with conn := s.conn.sendCancel index begin length }

def run : List PipelineStep → PipelineState → Option PipelineState := runSteps step

end PipelineStep

end P2P
