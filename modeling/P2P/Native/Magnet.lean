import P2P.Native.Metadata
import P2P.Native.SessionState

/-!
# A session for a magnet link (`TorrentSession.cpp`)

Until it has the info dictionary, a session asks every peer for all of its pieces and puts what
arrives into one buffer.
-/

namespace P2P

structure MetadataPeer where
  metadataExtId : UInt8
  metadataSize : Int32
  metadataRequested : Bool := false
  deriving DecidableEq, Repr

structure MagnetSession where
  mode : Mode
  state : SessionState
  metadataDownloadActive : Bool
  metadataBuffer : Bytes := []
  metadataPiecesReceived : UInt64 := 0
  metadataBufferInitFlag : Bool := false
  /-- How many calls of `on_metadata_complete` have loaded the metadata and go on. -/
  preparing : Nat := 0
  completions : List Bytes := []
  deriving DecidableEq

namespace MagnetSession

def createFromMagnet (mode : Mode) (infoHash : Bytes) (tiers : List (List Bytes)) :
    MagnetSession where
  mode := mode
  state := .ofMagnet infoHash tiers
  metadataDownloadActive := true

def metadata (s : MagnetSession) : MetadataState where
  mode := s.mode
  infoBencoded := s.state.metaInfo.infoBencoded
  metadataDownloadActive := s.metadataDownloadActive
  metadataBuffer := s.metadataBuffer
  metadataPiecesReceived := s.metadataPiecesReceived
  metadataBufferInitFlag := s.metadataBufferInitFlag

def withMetadata (s : MagnetSession) (m : MetadataState) : MagnetSession :=
  { s with
    metadataDownloadActive := m.metadataDownloadActive
    metadataBuffer := m.metadataBuffer
    metadataPiecesReceived := m.metadataPiecesReceived
    metadataBufferInitFlag := m.metadataBufferInitFlag }

/-- The end of a metadata download. The flag of `call_once` cannot be reset. -/
def endDownload (s : MagnetSession) : MagnetSession :=
  { s with metadataDownloadActive := false, metadataBuffer := [], metadataPiecesReceived := 0 }

/-- The number of pieces to ask for, in `int` arithmetic; an overflow is undefined. -/
def requestCount (totalSize : Int32) : Except Fault Nat :=
  if totalSize.toInt + 16384 < 2 ^ 31 then .ok ((totalSize.toInt + 16384 - 1) / 16384).toNat
  else .error .undefinedBehaviour

/-- `request_metadata_from_peer`: the pieces that are asked for, the session and the connection. -/
def requestMetadataFromPeer (allocates : UInt64 → Bool) (conn : MetadataPeer)
    (s : MagnetSession) : Except Fault (List Nat) × MagnetSession × MetadataPeer :=
  if s.state.numPieces > 0 ∨ conn.metadataExtId = 0 ∨ conn.metadataSize ≤ 0 ∨
      conn.metadataRequested then (.ok [], s, conn)
  else
    let conn := { conn with metadataRequested := true }
    let totalSize := conn.metadataSize.toInt.toNat
    let pieces := (requestCount conn.metadataSize).map List.range
    if s.metadataBufferInitFlag then (pieces, s, conn)
    else if ¬ allocates (UInt64.ofNat totalSize) then (.error .badAlloc, s, conn)
    else
      (pieces,
        { s with
          metadataBuffer := s.metadataBuffer.take totalSize ++
            List.replicate (totalSize - s.metadataBuffer.length) 0
          metadataPiecesReceived := 0
          metadataBufferInitFlag := true },
        conn)

/-- `on_metadata_complete` up to the preparation of the download; `none` for undefined behaviour. -/
def onMetadataComplete (sha1 : Bytes → Bytes) (s : MagnetSession) : Option MagnetSession :=
  let s := { s with completions := s.metadataBuffer :: s.completions }
  match s.state.loadMetadata sha1 s.metadataBuffer with
  | (.error .undefinedBehaviour, _) => none
  | (.error _, state) => some { s with state := state }.endDownload
  | (.ok _, state) => some { s with state := state, preparing := s.preparing + 1 }

def onMessage (sha1 : Bytes → Bytes) (allocates : UInt64 → Bool) (extId : UInt8)
    (payload : Bytes) (s : MagnetSession) : Option MagnetSession :=
  match s.metadata.handle allocates extId payload with
  | (.error .undefinedBehaviour, _) => none
  | (.ok (.copied _ _ _ true), m) => (s.withMetadata m).onMetadataComplete sha1
  | (_, m) => some (s.withMetadata m)

end MagnetSession

inductive MagnetStep where
  | request (conn : MetadataPeer)
  | message (extId : UInt8) (payload : Bytes)
  | prepare (pieceStatus : List PieceStatus)
  | finish
  | giveUp

namespace MagnetStep

variable (sha1 : Bytes → Bytes) (allocates : UInt64 → Bool)

def step (s : MagnetSession) : MagnetStep → Option MagnetSession
  | .request conn =>
    match s.requestMetadataFromPeer allocates conn with
    | (.error .undefinedBehaviour, _, _) => none
    | (_, s, _) => some s
  | .message extId payload => s.onMessage sha1 allocates extId payload
  | .prepare pieceStatus =>
    if 0 < s.preparing then some { s with state := { s.state with pieceStatus := pieceStatus } }
    else none
  | .finish =>
    if 0 < s.preparing then some { s with preparing := s.preparing - 1 }.endDownload else none
  | .giveUp => if 0 < s.preparing then some { s with preparing := s.preparing - 1 } else none

def run : List MagnetStep → MagnetSession → Option MagnetSession :=
  runSteps (step sha1 allocates)

end MagnetStep

end P2P
