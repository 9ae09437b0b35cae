import P2P.Native.TorrentSession

/-!
# The coroutines of a session (`PieceManager.cpp`, `TorrentSession.cpp`, `FileManager.cpp`)

A coroutine runs without interruption from one `co_await` to the next; the others go on while it
waits.
-/

namespace P2P

namespace TorrentSession

variable (E : Env) (sha1 : Bytes → Bytes) (s : TorrentSession)

def hashPiece (c : Completion) : Option (TorrentSession × Bool) :=
  if sha1 c.pieceData ≠ E.info.expectedHash c.piece then
    some ({ s with corruptReports := c.peerAddr :: s.corruptReports }, false)
  else do
    let manager ← s.manager.writePiece E c.piece c.pieceData
    some ({ s with manager := manager }, true)

def markHave (piece : Nat) : TorrentSession :=
  { s with
    pieceStatus := s.pieceStatus.set piece .have_
    completedPieces := s.completedPieces + 1 }

/-- The `Have` messages have been sent: the entry goes, and all may be there now. -/
def leaveProgress (piece : Nat) : Option TorrentSession :=
  let s := { s with inProgressPieces := s.inProgressPieces.erase piece }
  if s.completedPieces = s.numPieces then do
    let manager ← s.manager.flushAllDirty E
    some { s with manager := manager, isDownloadComplete := true }
  else some s

def nextUnskipped (status : List PieceStatus) (i : Nat) : Nat :=
  i + ((status.drop i).takeWhile (· = .skipped)).length

def finishVerify (haveCount : Nat) : TorrentSession :=
  let s := { s with completedPieces := haveCount }
  if s.completedPieces = s.numPieces then { s with isDownloadComplete := true } else s

def setVerified (piece : Nat) (valid : Bool) : TorrentSession :=
  { s with pieceStatus := s.pieceStatus.set piece (if valid then .have_ else .needed) }

end TorrentSession

inductive PieceTask where
  | starting (piece : Nat)
  | completing (c : Completion)
  | returning (piece : Nat)
  | writing (piece : Nat)
  | announcing (piece : Nat)
  | verifying (next haveCount : Nat)
  deriving DecidableEq

structure PieceRun where
  session : TorrentSession
  tasks : List PieceTask := []

inductive PieceStep where
  | tryPieceDownload (piece : Nat)
  | peersFound (i : Nat) (primary : Bytes)
  | noPeers (i : Nat)
  | pieceBlock (peer : Peer) (index begin : UInt32) (block : Bytes)
  | hashPiece (i : Nat)
  | pieceReturned (i : Nat)
  | pieceWritten (i : Nat)
  | haveSent (i : Nat)
  | pieceVerified (i : Nat)
  | verifyFailed (i : Nat)
  | setRequests (piece : Nat) (requests : List (List Bytes))
  | checkAndEnterEndgame (stalled : Bool)
  | blockRequest (conn : PeerConnection) (index begin length : UInt32)

namespace PieceRun

def resume (r : PieceRun) (i : Nat) (session : TorrentSession) (tasks : List PieceTask) :
    PieceRun where
  session := session
  tasks := r.tasks.eraseIdx i ++ tasks

variable (E : Env) (sha1 : Bytes → Bytes)

def verifyFrom (session : TorrentSession) (i haveCount : Nat) : TorrentSession × List PieceTask :=
  let next := TorrentSession.nextUnskipped session.pieceStatus i
  if next < session.numPieces then (session, [.verifying next haveCount])
  else (session.finishVerify haveCount, [])

def start (s : TorrentSession) (resume : Option TorrentSession.ResumeData) : PieceRun :=
  match resume with
  | none => { session := s }
  | some data =>
    let (session, tasks) := verifyFrom (s.loadSessionState E data) 0 0
    { session := session, tasks := tasks }

end PieceRun

namespace PieceStep

variable (E : Env) (sha1 : Bytes → Bytes)

def step (r : PieceRun) : PieceStep → Option PieceRun
  | .tryPieceDownload piece =>
    -- the status is looked at here and not when the peers have been found
    match r.session.pieceStatus[piece]? with
    | none => none
    | some .needed => some { r with tasks := r.tasks ++ [.starting piece] }
    | some _ => some r
  | .peersFound i primary =>
    match r.tasks[i]? with
    | some (.starting piece) => some (r.resume i (r.session.startPiece E piece primary) [])
    | _ => none
  | .noPeers i =>
    match r.tasks[i]? with
    | some (.starting _) => some (r.resume i r.session [])
    | _ => none
  | .pieceBlock peer index begin block =>
    match r.session.onPieceBlock E peer index begin block with
    | none => none
    | some (session, .stored true _) =>
      -- all blocks are there, so the data do not change before they are hashed
      match session.inProgressPieces.get? index.toNat with
      | none => none
      | some progress =>
        some {
          session := session
          tasks := r.tasks ++ [.completing ⟨index.toNat, progress.data, peer.peerAddr⟩] }
    | some (session, _) => some { r with session := session }
  | .hashPiece i =>
    match r.tasks[i]? with
    | some (.completing c) =>
      (r.session.hashPiece E sha1 c).map fun (session, good) =>
        r.resume i session [if good then .writing c.piece else .returning c.piece]
    | _ => none
  | .pieceReturned i =>
    match r.tasks[i]? with
    | some (.returning piece) => some (r.resume i (r.session.returnPieceToQueue piece) [])
    | _ => none
  | .pieceWritten i =>
    match r.tasks[i]? with
    | some (.writing piece) => some (r.resume i (r.session.markHave piece) [.announcing piece])
    | _ => none
  | .haveSent i =>
    match r.tasks[i]? with
    | some (.announcing piece) =>
      (r.session.leaveProgress E piece).map fun session => r.resume i session []
    | _ => none
  | .pieceVerified i =>
    match r.tasks[i]? with
    | some (.verifying next haveCount) =>
      match r.session.verifyPiece E sha1 next with
      | none => none
      | some (valid, manager) =>
        let (session, tasks) := PieceRun.verifyFrom
          ({ r.session with manager := manager }.setVerified next valid) (next + 1)
          (if valid then haveCount + 1 else haveCount)
        some (r.resume i session tasks)
    | _ => none
  | .verifyFailed i =>
    match r.tasks[i]? with
    | some (.verifying next _) =>
      match r.session.manager.readBlock E ⟨next, 0⟩
          (u32 (E.info.pieceSizeOf r.session.numPieces next)) with
      | some (.error _, manager) => some (r.resume i { r.session with manager := manager } [])
      | _ => none
    | _ => none
  | .setRequests piece requests => some { r with session := r.session.setRequests piece requests }
  | .checkAndEnterEndgame stalled =>
    some { r with session := r.session.checkAndEnterEndgame stalled }
  | .blockRequest conn index begin length =>
    (r.session.onBlockRequest E conn index begin length).map fun res =>
      { r with session := res.2.1 }

def run : List PieceStep → PieceRun → Option PieceRun := runSteps (step E sha1)

end PieceStep

end P2P
