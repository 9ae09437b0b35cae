import P2P.Native.TorrentSession

/-!
# Who is asked for a block (`PieceManager.cpp`, `TorrentSession.cpp`, `PeerConnection.cpp`)

Each block of a piece in progress has the peers that were asked for it and the time of the last
request.
-/

namespace P2P

structure BlockRequests where
  received : Bool := false
  outstanding : List Bytes := []
  armed : Bool := false
  deriving DecidableEq, Repr

namespace BlockRequests

variable (b : BlockRequests) (peerId : Bytes)

def register : BlockRequests :=
  { b with
    outstanding :=
      if b.outstanding.contains peerId then b.outstanding else b.outstanding ++ [peerId] }

def recordRequestSent : BlockRequests :=
  if b.received then b else { b.register peerId with armed := true }

def dropPeer : BlockRequests :=
  let requests := b.outstanding.filter (· ≠ peerId)
  { b with
    outstanding := requests
    armed := if requests.isEmpty && !b.received then false else b.armed }

def reject : BlockRequests :=
  let outstanding := b.outstanding.filter (· ≠ peerId)
  { b with
    outstanding := outstanding
    armed := if outstanding.isEmpty then false else b.armed }

def clear : BlockRequests := { b with outstanding := [], armed := false }

end BlockRequests

structure PieceRequests where
  number : Nat
  blocks : List BlockRequests
  deriving DecidableEq, Repr

inductive RequestEvent where
  /-- `try_piece_download`, the resumer, the tail scheduler or the timeout pass enters a peer. -/
  | register (block : Nat) (peerId : Bytes)
  | recordRequestSent (begin : UInt32) (peerId : Bytes)
  | pieceBlock (begin : UInt32) (endgame : Bool)
  | reject (begin : UInt32) (peerId : Bytes)
  | dropPeer (peerId : Bytes)
  | sendCancelForBlock (block : Nat)
  deriving DecidableEq, Repr

/-- The blocks after an event. A block that the piece does not have is left alone. -/
def RequestEvent.apply (blocks : List BlockRequests) : RequestEvent → List BlockRequests
  | .register block peerId => blocks.modify block (·.register peerId)
  | .recordRequestSent begin peerId =>
    blocks.modify (begin.toNat / blockSize) (·.recordRequestSent peerId)
  | .pieceBlock begin endgame => blocks.modify (begin.toNat / blockSize) fun b =>
    if b.received then b
    else
      let b := { b with received := true }
      if endgame then b.clear else b
  | .reject begin peerId => blocks.modify (begin.toNat / blockSize) (·.reject peerId)
  | .dropPeer peerId => blocks.map (·.dropPeer peerId)
  | .sendCancelForBlock block => blocks.modify block .clear

/-- The blocks that the resumer asks for: those that have not arrived and have no owner. -/
def PieceRequests.missingIndices (p : PieceRequests) : List Nat :=
  (List.range p.blocks.length).filter fun i =>
    match p.blocks[i]? with
    | some b => !b.received && b.outstanding.isEmpty
    | none => false

def blockRequest (pieceSize piece block : Nat) : RequestPayload :=
  let offset := u32 (block * blockSize)
  let length :=
    if block = sub32 (InProgressPiece.blockCount pieceSize) 1 then u32 (sub64 pieceSize offset)
    else blockSize
  ⟨UInt32.ofNat piece, UInt32.ofNat offset, UInt32.ofNat length⟩

/-- The request that `broadcast_outstanding_requests` sends, which counts the hashes. -/
def broadcastRequest (info : TorrentInfo) (piece block : Nat) : RequestPayload :=
  cancelRequest info info.numPieces piece block

def RequestPayload.piece (req : RequestPayload) : Nat := req.index.toNat

def RequestPayload.block (req : RequestPayload) : Nat := req.begin.toNat / blockSize

structure RequestPeer where
  peerId : Bytes
  conn : PeerConnection := {}
  deriving DecidableEq, Repr

inductive RequestTask where
  | tryPiece (piece : Nat) (peer : Option Nat)
  /-- The resumer, the timeout pass or the tail scheduler: the blocks left and the first's peer. -/
  | place (piece number : Nat) (blocks : List Nat) (peer : Option Nat)
  | send (peer : Nat) (req : RequestPayload)
  /-- A request whose write is in flight; `flushed`: spawned by `flush_pending_requests`. -/
  | write (peer : Nat) (req : RequestPayload) (flushed : Bool)
  | cancel (peer : Nat) (req : RequestPayload)
  | choke (peer : Nat) (handled : Bool)
  | disconnect (peer : Nat) (cleaned : Bool)
  deriving DecidableEq, Repr

structure RequestRun where
  pieceStatus : List PieceStatus
  inProgress : Nat → Option PieceRequests
  nextNumber : Nat := 1
  peers : List RequestPeer := []
  connections : OrdMap Bytes Nat := OrdMap.empty
  tasks : List RequestTask := []

namespace RequestRun

variable (info : TorrentInfo) (r : RequestRun)

def start (pieceStatus : List PieceStatus) (restored : Nat → Option (List Bool)) : RequestRun where
  pieceStatus := pieceStatus
  inProgress piece := (restored piece).map fun flags =>
    { number := 0, blocks := flags.map fun received => { received := received } }

def pieceSize (piece : Nat) : Nat := info.pieceSizeOf r.pieceStatus.length piece

def spawn (new : List RequestTask) : RequestRun := { r with tasks := r.tasks ++ new }

def resume (i : Nat) (new : List RequestTask) : RequestRun :=
  { r with tasks := r.tasks.eraseIdx i ++ new }

def modifyBlock (piece block : Nat) (f : BlockRequests → BlockRequests) : RequestRun :=
  { r with
    inProgress := Function.update r.inProgress piece <|
      (r.inProgress piece).map fun p => { p with blocks := p.blocks.modify block f } }

def dropPeer (peerId : Bytes) : RequestRun :=
  { r with
    inProgress := fun piece => (r.inProgress piece).map fun p =>
      { p with blocks := p.blocks.map (·.dropPeer peerId) } }

def setConn (k : Nat) (queue : List RequestPayload) (conn : PeerConnection) : RequestRun :=
  { r with
    peers := r.peers.modify k fun peer => { peer with conn := conn }
    tasks := r.tasks ++
      (queue.take (queue.length - conn.pendingRequests.length)).map (.write k · true) }

def sendCancelForBlock (piece block : Nat) (excludePeerId : Bytes) : RequestRun :=
  match r.inProgress piece with
  | none => r
  | some p =>
    match p.blocks[block]? with
    | none => r
    | some b =>
      (r.modifyBlock piece block .clear).spawn <|
        (b.outstanding.filter (· ≠ excludePeerId)).filterMap fun peerId =>
          (r.connections.get? peerId).map fun k =>
            .cancel k (cancelRequest info r.pieceStatus.length piece block)

def available (k : Nat) (peer : RequestPeer) : Bool :=
  r.connections.get? peer.peerId = some k && !peer.conn.peerIsChoking

/-- `try_piece_download` makes its peer own every block, and the requests are spawned. -/
def seedPiece (piece k : Nat) (peerId : Bytes) : RequestRun :=
  let p := (r.inProgress piece).getD {
    number := r.nextNumber
    blocks := List.replicate (InProgressPiece.blockCount (r.pieceSize info piece)) {} }
  { r with
    pieceStatus := r.pieceStatus.set piece .inProgress
    inProgress := Function.update r.inProgress piece
      (some { p with blocks := p.blocks.map (·.register peerId) })
    nextNumber := r.nextNumber + 1
    tasks := r.tasks ++ (List.range p.blocks.length).map fun block =>
      .send k (blockRequest (r.pieceSize info piece) piece block) }

def placeBlock (piece number block k : Nat) (peerId : Bytes) : RequestRun :=
  let request := .send k (blockRequest (r.pieceSize info piece) piece block)
  -- the owner is entered in vain when the piece has left the progress meanwhile
  if (r.inProgress piece).map (·.number) = some number then
    (r.modifyBlock piece block (·.register peerId)).spawn [request]
  else r.spawn [request]

end RequestRun

def RequestTask.placeRest (piece number : Nat) : List Nat → List RequestTask
  | [] => []
  | block :: blocks => [.place piece number (block :: blocks) none]

inductive RequestStep where
  /-- A connection is added, in place of one that is there under the id of the peer. -/
  | connect (peerId : Bytes)
  | tryPieceDownload (piece : Nat)
  | resumePieceDownload (piece : Nat)
  | checkBlockTimeouts (piece block : Nat)
  | tailScheduler (piece block : Nat)
  | pick (i peer : Nat)
  | pickNone (i : Nat)
  | register (i : Nat)
  /-- A request without a block entered: in the endgame, or from a queue of `on_disconnect`. -/
  | spawnSend (peer : Nat) (req : RequestPayload)
  | sendRequest (i : Nat)
  | writeDone (i : Nat)
  | writeFailed (i : Nat)
  | sendCancel (i : Nat)
  | message (peer : Nat) (msg : PeerMessage)
  | choke (i : Nat)
  | pieceBlock (peer : Nat) (req : RequestPayload) (endgame : Bool)
  | leaveProgress (piece : Nat) (valid : Bool)
  | disconnect (peer : Nat)
  | onDisconnect (i : Nat)
  deriving Repr

namespace RequestStep

variable (info : TorrentInfo)

def noPeer : Bytes := List.replicate 20 0

def step (r : RequestRun) : RequestStep → Option RequestRun
  | .connect peerId =>
    some { r with
      peers := r.peers ++ [{ peerId := peerId }]
      connections := r.connections.insert peerId r.peers.length }
  | .tryPieceDownload piece =>
    if r.pieceStatus[piece]? = some .needed then some (r.spawn [.tryPiece piece none]) else none
  | .resumePieceDownload piece => do
    let p ← r.inProgress piece
    some (r.spawn (RequestTask.placeRest piece p.number p.missingIndices))
  | .checkBlockTimeouts piece block => do
    let p ← r.inProgress piece
    let b ← p.blocks[block]?
    if b.armed && !b.received then
      some ((r.sendCancelForBlock info piece block noPeer).spawn
        [.place piece p.number [block] none])
    else none
  | .tailScheduler piece block => do
    let p ← r.inProgress piece
    let b ← p.blocks[block]?
    if b.received then none else some (r.spawn [.place piece p.number [block] none])
  | .pick i k => do
    let peer ← r.peers[k]?
    if r.available k peer then
      match r.tasks[i]? with
      | some (.tryPiece piece none) => some (r.resume i [.tryPiece piece (some k)])
      | some (.place piece number blocks none) =>
        some (r.resume i [.place piece number blocks (some k)])
      | _ => none
    else none
  | .pickNone i =>
    match r.tasks[i]? with
    | some (.tryPiece _ none) => some (r.resume i [])
    | some (.place piece number (_ :: blocks) none) =>
      some (r.resume i (RequestTask.placeRest piece number blocks))
    | _ => none
  | .register i =>
    match r.tasks[i]? with
    | some (.tryPiece piece (some k)) => do
      let peer ← r.peers[k]?
      some ((r.resume i []).seedPiece info piece k peer.peerId)
    | some (.place piece number (block :: blocks) (some k)) => do
      let peer ← r.peers[k]?
      some ((r.resume i (RequestTask.placeRest piece number blocks)).placeBlock info piece number
        block k peer.peerId)
    | _ => none
  | .spawnSend k req => if k < r.peers.length then some (r.spawn [.send k req]) else none
  | .sendRequest i =>
    match r.tasks[i]? with
    | some (.send k req) => do
      let peer ← r.peers[k]?
      -- with a full pipeline the request goes to the queue, and the coroutine is over
      let (started, conn) := peer.conn.sendRequest req.index.toUInt64 req.begin req.length
      some ((r.resume i (if started then [.write k req false] else [])).setConn k [] conn)
    | _ => none
  | .writeDone i =>
    match r.tasks[i]? with
    | some (.write k req _) => do
      let peer ← r.peers[k]?
      some ((r.resume i []).modifyBlock req.piece req.block (·.recordRequestSent peer.peerId))
    | _ => none
  | .writeFailed i =>
    match r.tasks[i]? with
    | some (.write k req false) => do
      let peer ← r.peers[k]?
      some ((r.resume i []).setConn k peer.conn.pendingRequests
        (peer.conn.requestFailed req.length))
    -- nobody catches the exception of a flushed write: its place in the pipeline stays taken
    | some (.write _ _ true) => some (r.resume i [])
    | _ => none
  | .sendCancel i =>
    match r.tasks[i]? with
    | some (.cancel k req) => do
      let peer ← r.peers[k]?
      some ((r.resume i []).setConn k
        (peer.conn.pendingRequests.eraseP
          (PeerConnection.isQueued req.index.toUInt64 req.begin req.length))
        (peer.conn.sendCancel req.index.toUInt64 req.begin req.length))
    | _ => none
  | .message k msg => do
    let peer ← r.peers[k]?
    -- the loop waits for a `Choke` to be handled
    if r.tasks.contains (.choke k false) || r.tasks.contains (.choke k true) then none
    else
      let r := r.setConn k peer.conn.pendingRequests (peer.conn.receive msg)
      match msg with
      | .choke => some (r.spawn [.choke k false])
      | .reject req => some (r.modifyBlock req.piece req.block (·.reject peer.peerId))
      | _ => some r
  | .choke i =>
    match r.tasks[i]? with
    | some (.choke k false) => do
      let peer ← r.peers[k]?
      some ((r.resume i [.choke k true]).dropPeer peer.peerId)
    | some (.choke k true) => do
      let peer ← r.peers[k]?
      some ((r.resume i []).setConn k [] peer.conn.freePipeline)
    | _ => none
  | .pieceBlock k req endgame => do
    let peer ← r.peers[k]?
    if r.pieceStatus[req.piece]? = some .have_ then some (r.spawn [.cancel k req])
    else
      match r.inProgress req.piece with
      | none => some (r.spawn [.cancel k req])
      | some p =>
        match p.blocks[req.block]? with
        | some { received := false, .. } =>
          let r := r.modifyBlock req.piece req.block ({ · with received := true })
          some (if endgame then r.sendCancelForBlock info req.piece req.block peer.peerId else r)
        | _ => some r
  | .leaveProgress piece valid =>
    some { r with
      pieceStatus := r.pieceStatus.set piece (if valid then .have_ else .needed)
      inProgress := Function.update r.inProgress piece none }
  | .disconnect k => if k < r.peers.length then some (r.spawn [.disconnect k false]) else none
  | .onDisconnect i =>
    match r.tasks[i]? with
    | some (.disconnect k false) => do
      let peer ← r.peers[k]?
      some ((r.resume i [.disconnect k true]).dropPeer peer.peerId)
    | some (.disconnect k true) => do
      let peer ← r.peers[k]?
      -- whichever connection the entry refers to
      some { r.resume i [] with connections := r.connections.erase peer.peerId }
    | _ => none

def run : List RequestStep → RequestRun → Option RequestRun := runSteps (step info)

end RequestStep

end P2P
