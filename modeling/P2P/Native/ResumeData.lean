import P2P.ForStd.Bitfield
import P2P.Native.TorrentSession

/-!
# Resume data (`Utils.hpp`, `SessionState.hpp`, `PieceManager.cpp`, `TorrentSession.cpp`)

The pieces a session has, the blocks of the pieces in progress, its counters and the times of its
files.
-/

namespace P2P

open Bencode Assoc OrdMap

structure ResumeData where
  haveBitfield : Bytes := []
  fileMtimes : OrdMap Bytes Int64 := empty
  totalUploaded : UInt64 := 0
  totalDownloaded : UInt64 := 0
  inProgressPieces : OrdMap Bytes Bytes := empty

namespace ResumeData

def dictFrom {α : Type} (entries : List (Bytes × α)) (value : α → Value) : Dict :=
  entries.foldl (fun d entry => insert d entry.1 (value entry.2)) []

def fileDict (mtime : Int64) : Value :=
  .dict (insert [] (Bytes.ascii "mtime") (.int mtime))

def statsDict (r : ResumeData) : Dict :=
  insert (insert [] (Bytes.ascii "uploaded") (.int r.totalUploaded.toInt64))
    (Bytes.ascii "downloaded") (.int r.totalDownloaded.toInt64)

def resumeDict (r : ResumeData) : Dict :=
  insert (insert (insert (insert []
    (Bytes.ascii "have_bitfield") (.str r.haveBitfield))
    (Bytes.ascii "files_metadata") (.dict (dictFrom r.fileMtimes.entries fileDict)))
    (Bytes.ascii "stats") (.dict r.statsDict))
    (Bytes.ascii "in_progress") (.dict (dictFrom r.inProgressPieces.entries .str))

def serialize (r : ResumeData) : Bytes := encode (.dict r.resumeDict)

section Deserialize

variable {σ : Type}

/-- A member that is a dictionary; a member of another type counts as missing. -/
def subDict (d : Dict) (key : String) : Option Dict :=
  match find? d (Bytes.ascii key) with
  | some (.dict sub) => some sub
  | _ => none

def readMtimes : Dict → OrdMap Bytes Int64 → Throwing σ (OrdMap Bytes Int64)
  | [], mtimes => pure mtimes
  | (path, .dict thisFileDict) :: files, mtimes => do
    let savedMtime ← getInteger (← dictAt thisFileDict "mtime")
    readMtimes files (mtimes.insert path savedMtime)
  | _ :: files, mtimes => readMtimes files mtimes

def readInProgress : Dict → OrdMap Bytes Bytes → Throwing σ (OrdMap Bytes Bytes)
  | [], pieces => pure pieces
  | (piece, v) :: rest, pieces => do
    let blockBitfield ← getString v
    readInProgress rest (pieces.insert piece blockBitfield)

def fromDict (d : Dict) : Throwing σ ResumeData := do
  if !dictCount d "have_bitfield" then
    throw (.runtimeError "Resume file missing 'have_bitfield'")
  let haveBitfield ← getString (← dictAt d "have_bitfield")
  let fileMtimes ← match subDict d "files_metadata" with
    | some files => readMtimes files empty
    | none => pure empty
  let (uploaded, downloaded) ← match subDict d "stats" with
    | some stats => do
      let uploaded ← getInteger (← dictAt stats "uploaded")
      let downloaded ← getInteger (← dictAt stats "downloaded")
      pure (uploaded.toUInt64, downloaded.toUInt64)
    | none => pure (0, 0)
  let inProgressPieces ← match subDict d "in_progress" with
    | some pieces => readInProgress pieces empty
    | none => pure empty
  pure {
    haveBitfield := haveBitfield
    fileMtimes := fileMtimes
    totalUploaded := uploaded
    totalDownloaded := downloaded
    inProgressPieces := inProgressPieces }

def deserialize (data : Bytes) : Throwing σ ResumeData :=
  match decode data with
  | .error e => throw (.runtimeError e.what)
  | .ok (.dict d) => fromDict d
  | .ok _ => throw (.runtimeError "Resume file is not a dictionary")

end Deserialize

def toLoad (r : ResumeData) : TorrentSession.ResumeData where
  haveBitfield := r.haveBitfield
  fileMtimes := r.fileMtimes.entries
  inProgressPieces := r.inProgressPieces.entries

end ResumeData

namespace TorrentSession

def getHaveBitfieldStr (s : TorrentSession) : Bytes :=
  Bitfield.pack s.numPieces fun i => s.pieceStatus[i]? = some .have_

def blockBitfield (progress : InProgressPiece) : Bytes :=
  Bitfield.pack progress.totalBlocks fun i => progress.blocksReceived[i]? = some true

def getInProgressForResume (s : TorrentSession) : OrdMap Bytes Bytes :=
  s.inProgressPieces.entries.foldl
    (fun result entry => result.insert (Decimal.printNat entry.1) (blockBitfield entry.2))
    empty

/-- The resume data of `save_session_state`, with the times of `async_get_file_mtimes`. -/
def resumeData (s : TorrentSession) (mtimes : OrdMap Bytes Int64) : P2P.ResumeData where
  haveBitfield := s.getHaveBitfieldStr
  fileMtimes := mtimes
  totalUploaded := s.totalBytesUploaded
  totalDownloaded := s.totalBytesDownloaded
  inProgressPieces := s.getInProgressForResume

end TorrentSession

end P2P
