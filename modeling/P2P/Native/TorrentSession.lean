import P2P.Native.PeerConnection
import P2P.Native.SessionState

/-!
# A torrent session (`TorrentSession.cpp`, `PieceManager.cpp`)

A piece is started, its blocks arrive from peers and are put into its buffer, and with the last one
the piece is hashed and written, or returned while the peer of that block is reported.
-/

namespace P2P

open List

structure Peer where
  peerId : Bytes
  peerAddr : Bytes
  deriving DecidableEq, Repr

/-! ## Pieces in progress -/

structure InProgressPiece where
  data : Bytes
  blocksReceived : List Bool
  receivedCount : Nat
  totalBlocks : Nat
  outstandingRequests : List (List Bytes)
  blocks_le : blocksReceived.length ≤ (data.length + blockSize - 1) / blockSize
  deriving DecidableEq, Repr

namespace InProgressPiece

def blockCount (pieceSize : Nat) : Nat := u32 (sub64 (u64 (pieceSize + blockSize)) 1 / blockSize)

theorem blockCount_le (pieceSize : Nat) :
    blockCount pieceSize ≤ (pieceSize + blockSize - 1) / blockSize := by
  have hsub : sub64 (u64 (pieceSize + blockSize)) 1 ≤ pieceSize + blockSize - 1 := by
    unfold sub64 u64 blockSize
    omega
  exact Nat.le_trans (Nat.mod_le _ _) (Nat.div_le_div_right hsub)

def new (pieceSize : Nat) : InProgressPiece where
  data := replicate pieceSize 0
  blocksReceived := replicate (blockCount pieceSize) false
  receivedCount := 0
  totalBlocks := blockCount pieceSize
  outstandingRequests := replicate (blockCount pieceSize) []
  blocks_le := by
    rw [length_replicate, length_replicate]
    exact blockCount_le pieceSize

/-- The critical section of `on_piece_block` for a block that is not there yet. -/
def store (p : InProgressPiece) (blockIndex begin : Nat) (block : Bytes) :
    Option InProgressPiece :=
  if h : begin + block.length ≤ p.data.length then
    some { p with
      data := p.data.overwrite 0 begin block
      blocksReceived := p.blocksReceived.set blockIndex true
      receivedCount := u32 (p.receivedCount + 1)
      blocks_le := by
        rw [length_set, length_overwrite 0 block h]
        exact p.blocks_le }
  else none

def requestAll (p : InProgressPiece) (primary : Bytes) : InProgressPiece :=
  { p with
    outstandingRequests := p.outstandingRequests.map fun owners =>
      if owners.contains primary then owners else owners ++ [primary] }

def restoreBlock (bits : Bytes) (p : InProgressPiece) (i : Nat) : InProgressPiece :=
  if (bits.getD (i / 8) 0).toNat.testBit (7 - i % 8) then
    { p with
      blocksReceived := p.blocksReceived.set i true
      receivedCount := u32 (p.receivedCount + 1)
      blocks_le := by
        rw [length_set]
        exact p.blocks_le }
  else p

def restore (pieceSize : Nat) (bits : Bytes) : InProgressPiece :=
  (range (blockCount pieceSize)).foldl (restoreBlock bits) (.new pieceSize)

end InProgressPiece

/-! ## The session -/

structure TorrentSession where
  pieceStatus : List PieceStatus
  completedPieces : Nat := 0
  totalBytesDownloaded : UInt64 := 0
  totalBytesUploaded : UInt64 := 0
  isDownloadComplete : Bool := false
  isInEndgameMode : Bool := false
  inProgressPieces : OrdMap Nat InProgressPiece := OrdMap.empty
  manager : FileManager
  corruptReports : List Bytes := []

/-- The size of a piece in `try_piece_download`, `load_session_state` and `verify_piece`. -/
def TorrentInfo.pieceSizeOf (info : TorrentInfo) (numPieces piece : Nat) : Nat :=
  if piece = sub64 numPieces 1 then
    let lastPieceSize := info.totalSize.toNat % info.pieceSize.toNat
    if lastPieceSize = 0 then info.pieceSize.toNat else lastPieceSize
  else info.pieceSize.toNat

def TorrentInfo.expectedHash (info : TorrentInfo) (piece : Nat) : Bytes :=
  info.pieces.slice (piece * 20) 20

/-- What `send_cancel_for_block` cancels. -/
def cancelRequest (info : TorrentInfo) (numPieces piece block : Nat) : RequestPayload :=
  let offset := u32 (block * blockSize)
  let currentPieceSize :=
    if piece = sub64 numPieces 1 then
      sub64 info.totalSize.toNat (u64 (piece * info.pieceSize.toNat))
    else info.pieceSize.toNat
  let length :=
    if offset + blockSize > currentPieceSize then u32 (sub64 currentPieceSize offset)
    else blockSize
  ⟨UInt32.ofNat piece, UInt32.ofNat offset, UInt32.ofNat length⟩

namespace TorrentSession

variable (E : Env) (sha1 : Bytes → Bytes) (s : TorrentSession)

def numPieces : Nat := s.pieceStatus.length

/-! ### Uploads -/

def onBlockRequest (conn : PeerConnection) (index begin length : UInt32) :
    Option (Except FileManager.ReadError Unit × TorrentSession × PeerConnection) :=
  if conn.amChoking then
    some (.ok (), s,
      if conn.fastExtensionSupported then conn.sendReject index begin length else conn)
  else
    -- a peer that asks is taken to be interested
    let conn := { conn with peerIsInterested := true }
    match s.manager.readBlock E ⟨index.toNat, begin.toNat⟩ length.toNat with
    | none => none
    | some (.error e, manager) => some (.error e, { s with manager := manager }, conn)
    | some (.ok block, manager) =>
      some (.ok (),
        { s with
          manager := manager
          totalBytesUploaded := s.totalBytesUploaded + length.toUInt64 },
        conn.sendPiece index begin block)

/-! ### Downloads -/

def startPiece (piece : Nat) (primary : Bytes) : TorrentSession :=
  let pieces := s.inProgressPieces.emplace piece
    (.new (E.info.pieceSizeOf s.numPieces piece))
  { s with
    pieceStatus := s.pieceStatus.set piece .inProgress
    inProgressPieces := match pieces.get? piece with
      | some progress => pieces.insert piece (progress.requestAll primary)
      | none => pieces }

def cancelsForBlock (progress : InProgressPiece) (piece blockIndex : Nat) (exclude : Bytes) :
    List (Bytes × RequestPayload) :=
  ((progress.outstandingRequests.getD blockIndex []).filter (· ≠ exclude)).map fun peerId =>
    (peerId, cancelRequest E.info s.numPieces piece blockIndex)

def endgamePieceThreshold : Nat := 32

/-- `check_and_enter_endgame`; `stalled` says that no piece has been completed for a while. -/
def checkAndEnterEndgame (stalled : Bool) : TorrentSession :=
  if s.isInEndgameMode then s
  else
    let neededCount := s.pieceStatus.countP fun status => status = .needed ∨ status = .inProgress
    let endgameThreshold := min (s.numPieces / 10) endgamePieceThreshold
    let noProgress := stalled ∧ s.completedPieces ≥ endgamePieceThreshold ∧
      neededCount < endgamePieceThreshold * 2 ∧ ¬ s.inProgressPieces.entries.isEmpty
    if (neededCount > 0 ∧ neededCount < endgameThreshold) ∨ noProgress then
      { s with isInEndgameMode := true }
    else s

/-- A request for a block is sent, rejected or dropped, or it times out. -/
def setRequests (piece : Nat) (requests : List (List Bytes)) : TorrentSession :=
  match s.inProgressPieces.get? piece with
  | none => s
  | some progress =>
    { s with
      inProgressPieces := s.inProgressPieces.insert piece
        { progress with outstandingRequests := requests } }

inductive BlockOutcome where
  | cancelled
  | ignored
  | stored (complete : Bool) (cancels : List (Bytes × RequestPayload))
  deriving DecidableEq, Repr

/-- `on_piece_block` with the piece in progress: the block is put into the buffer, unless it is none
    or there. -/
def receiveBlock (peer : Peer) (index begin : UInt32) (block : Bytes)
    (progress : InProgressPiece) : Option (TorrentSession × BlockOutcome) :=
  let blockIndex := begin.toNat / blockSize
  if blockIndex ≥ progress.blocksReceived.length ∨
      progress.blocksReceived[blockIndex]? = some true then some (s, .ignored)
  else
    match progress.store blockIndex begin.toNat block with
    | none => none
    | some progress =>
      let cancels :=
        if s.isInEndgameMode then s.cancelsForBlock E progress index.toNat blockIndex peer.peerId
        else []
      let requests :=
        if s.isInEndgameMode then progress.outstandingRequests.set blockIndex []
        else progress.outstandingRequests
      some
        ({ s with
            inProgressPieces := s.inProgressPieces.insert index.toNat
              { progress with outstandingRequests := requests }
            totalBytesDownloaded := s.totalBytesDownloaded + UInt64.ofNat block.length },
          .stored (progress.receivedCount = progress.totalBlocks) cancels)

def onPieceBlock (peer : Peer) (index begin : UInt32) (block : Bytes) :
    Option (TorrentSession × BlockOutcome) :=
  match s.pieceStatus[index.toNat]? with
  | none => none
  | some status =>
    if status = .have_ then some (s, .cancelled)
    else match s.inProgressPieces.get? index.toNat with
      | none => some (s, .cancelled)
      | some progress => s.receiveBlock E peer index begin block progress

def returnPieceToQueue (piece : Nat) : TorrentSession :=
  { s with
    inProgressPieces := s.inProgressPieces.erase piece
    pieceStatus := s.pieceStatus.set piece .needed }

/-- The rest of `on_piece_block` for a complete piece; `peerAddr` is the address of the last block's
    peer. -/
def finishPiece (piece : Nat) (pieceData peerAddr : Bytes) : Option TorrentSession :=
  if sha1 pieceData ≠ E.info.expectedHash piece then
    some ({ s with corruptReports := peerAddr :: s.corruptReports }.returnPieceToQueue piece)
  else do
    let manager ← s.manager.writePiece E piece pieceData
    let s := { s with
      manager := manager
      pieceStatus := s.pieceStatus.set piece .have_
      completedPieces := s.completedPieces + 1
      inProgressPieces := s.inProgressPieces.erase piece }
    if s.completedPieces = s.numPieces then
      let manager ← s.manager.flushAllDirty E
      some { s with manager := manager, isDownloadComplete := true }
    else some s

/-! ### The start of a session -/

/-- `std::stoul` in base ten; `none` when it throws. -/
def stoul (text : Bytes) : Option Nat :=
  let (negative, digits) := Decimal.signedDigits Decimal.isDigit text
  if digits.isEmpty || Decimal.digitsVal digits ≥ 2 ^ 64 then none
  else some (if negative then sub64 0 (Decimal.digitsVal digits) else Decimal.digitsVal digits)

structure ResumeData where
  haveBitfield : Bytes
  fileMtimes : List (Bytes × Int64)
  inProgressPieces : List (Bytes × Bytes)

def reset : TorrentSession :=
  { s with
    pieceStatus := s.pieceStatus.map fun _ => .needed
    completedPieces := 0
    inProgressPieces := OrdMap.empty }

def haveStatus (bits : Bytes) (i : Nat) (status : PieceStatus) : PieceStatus :=
  if (bits.getD (i / 8) 0).toNat.testBit (7 - i % 8) then .have_
  else if status = .skipped then .skipped
  else .needed

def invalidateFile (status : List PieceStatus) (pieces : List Nat) : List PieceStatus :=
  pieces.foldl
    (fun status piece => if status[piece]? = some .have_ then status.set piece .needed else status)
    status

/-- The files that are missing, checked when the resume data has file times. -/
def invalidateFiles (data : ResumeData) (status : List PieceStatus) : List PieceStatus :=
  if data.fileMtimes.isEmpty then status
  else
    (E.info.files.zip E.maps.fileToPieces).foldl
      (fun status (file, pieces) =>
        if (s.manager.disk (E.resolve (E.getFullPathForFile file))).isNone then
          invalidateFile status pieces
        else status)
      status

def resumePiece (entry : Bytes × Bytes) : TorrentSession :=
  match stoul entry.1 with
  | none => s
  | some piece =>
    if s.pieceStatus[piece]? ≠ some .needed ∨ entry.2.isEmpty then s
    else
      let progress := InProgressPiece.restore (E.info.pieceSizeOf s.numPieces piece) entry.2
      -- a piece with all its blocks is not resumed
      if progress.receivedCount = progress.totalBlocks then s
      else
        { s with
          pieceStatus := s.pieceStatus.set piece .inProgress
          inProgressPieces := s.inProgressPieces.emplace piece progress }

def loadSessionState (data : ResumeData) : TorrentSession :=
  if data.haveBitfield.length ≠ (s.numPieces + 7) / 8 then s.reset
  else
    let status := s.invalidateFiles E data
      (s.pieceStatus.mapIdx (haveStatus data.haveBitfield))
    let s := { s with
      pieceStatus := status
      completedPieces := status.count .have_ }
    let s := data.inProgressPieces.foldl (resumePiece E) s
    -- the number of needed pieces is compared with the number of all pieces
    if s.pieceStatus.count .needed = s.numPieces ∧ ¬ s.inProgressPieces.entries.isEmpty then
      { s with isInEndgameMode := true }
    else s

/-- `verify_piece`; `none` when the read fails, which ends the start of the session. -/
def verifyPiece (piece : Nat) : Option (Bool × FileManager) :=
  match s.manager.readBlock E ⟨piece, 0⟩ (u32 (E.info.pieceSizeOf s.numPieces piece)) with
  | some (.ok pieceData, manager) =>
    some (decide (sha1 pieceData = E.info.expectedHash piece), manager)
  | _ => none

def verifyLoop : List Nat → Nat → TorrentSession → Option TorrentSession
  | [], haveCount, s => some { s with completedPieces := haveCount }
  | piece :: pieces, haveCount, s =>
    if s.pieceStatus[piece]? = some .skipped then verifyLoop pieces haveCount s
    else match s.verifyPiece E sha1 piece with
      | none => none
      | some (true, manager) =>
        verifyLoop pieces (haveCount + 1)
          { s with manager := manager, pieceStatus := s.pieceStatus.set piece .have_ }
      | some (false, manager) =>
        verifyLoop pieces haveCount
          { s with manager := manager, pieceStatus := s.pieceStatus.set piece .needed }

def verifyPieces : Option TorrentSession :=
  verifyLoop E sha1 (range s.numPieces) 0 s

def init (resume : Option ResumeData) : Option TorrentSession :=
  match resume with
  | none => some s
  | some data =>
    ((s.loadSessionState E data).verifyPieces E sha1).map fun s =>
      if s.completedPieces = s.numPieces then { s with isDownloadComplete := true } else s

end TorrentSession

/-! ## Interleavings -/

/-- A piece whose last block has arrived: nobody writes to its buffer any more. -/
structure Completion where
  piece : Nat
  pieceData : Bytes
  peerAddr : Bytes
  deriving DecidableEq, Repr

structure SessionRun where
  session : TorrentSession
  starting : List Nat := []
  completing : List Completion := []

inductive SessionStep where
  | tryPieceDownload (piece : Nat)
  | startPiece (i : Nat) (primary : Bytes)
  | pieceBlock (peer : Peer) (index begin : UInt32) (block : Bytes)
  | finishPiece (i : Nat)
  | setRequests (piece : Nat) (requests : List (List Bytes))
  | checkAndEnterEndgame (stalled : Bool)
  | blockRequest (conn : PeerConnection) (index begin length : UInt32)

namespace SessionStep

variable (E : Env) (sha1 : Bytes → Bytes)

def step (r : SessionRun) : SessionStep → Option SessionRun
  | .tryPieceDownload piece =>
    if r.session.pieceStatus[piece]? = some .needed then
      some { r with starting := r.starting ++ [piece] }
    else none
  | .startPiece i primary =>
    match r.starting[i]? with
    | none => none
    | some piece =>
      some { r with
        session := r.session.startPiece E piece primary
        starting := r.starting.eraseIdx i }
  | .pieceBlock peer index begin block =>
    match r.session.onPieceBlock E peer index begin block with
    | none => none
    | some (session, .stored true _) =>
      match session.inProgressPieces.get? index.toNat with
      | none => none
      | some progress =>
        some { r with
          session := session
          completing := r.completing ++ [⟨index.toNat, progress.data, peer.peerAddr⟩] }
    | some (session, _) => some { r with session := session }
  | .finishPiece i =>
    match r.completing[i]? with
    | none => none
    | some c =>
      (r.session.finishPiece E sha1 c.piece c.pieceData c.peerAddr).map fun session =>
        { r with session := session, completing := r.completing.eraseIdx i }
  | .setRequests piece requests => some { r with session := r.session.setRequests piece requests }
  | .checkAndEnterEndgame stalled =>
    some { r with session := r.session.checkAndEnterEndgame stalled }
  | .blockRequest conn index begin length =>
    (r.session.onBlockRequest E conn index begin length).map fun res =>
      { r with session := res.2.1 }

def run : List SessionStep → SessionRun → Option SessionRun := runSteps (step E sha1)

end SessionStep

end P2P
