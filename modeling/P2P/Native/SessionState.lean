import P2P.Native.FileManager

/-!
# The state of a session (`SessionState.hpp`)

The metadata of a session and the status of its pieces, there from the start if opened from a
torrent file.
-/

namespace P2P

inductive PieceStatus where
  | needed
  | inProgress
  | have_
  | skipped
  deriving DecidableEq, Repr

deriving instance DecidableEq for MetaInfo

structure SessionState where
  metaInfo : MetaInfo
  trackerTiers : List (List Bytes) := []
  numPieces : Nat
  pieceStatus : List PieceStatus := []
  deriving DecidableEq

namespace SessionState

def hashSize : Nat := 20

section Load

variable (sha1 : Bytes → Bytes)

/-- The constructor from a torrent file; `file` is its content. -/
def ofTorrent (torrentPath : String) (file : Option Bytes) : Except Fault SessionState :=
  match loadFromFile sha1 file {} [] with
  | (none, _) => .error .undefinedBehaviour
  | (some false, _) => .error (.runtimeError ("Could not load torrent file: " ++ torrentPath))
  | (some true, m, tiers) =>
    if m.infoHashBytes.length ≠ hashSize then .error (.runtimeError "Invalid info hash size.")
    else
      .ok {
        metaInfo := m
        trackerTiers := tiers
        numPieces := m.info.numPieces
        pieceStatus := List.replicate m.info.numPieces .needed }

def ofMagnet (infoHash : Bytes) (tiers : List (List Bytes)) : SessionState where
  metaInfo := { infoHashBytes := infoHash }
  trackerTiers := tiers
  numPieces := 0

/-- `SessionState::load_metadata`: what it throws, and the state it leaves. -/
def loadMetadata (s : SessionState) (infoBencoded : Bytes) : Except Fault Unit × SessionState :=
  let expectedHash := s.metaInfo.infoHashBytes
  match loadFromInfoBytes sha1 infoBencoded s.metaInfo with
  | (none, m) => (.error .undefinedBehaviour, { s with metaInfo := m })
  | (some false, m) =>
    (.error (.runtimeError "Failed to load persisted magnet metadata."), { s with metaInfo := m })
  | (some true, m) =>
    if ¬ expectedHash.isEmpty ∧ expectedHash ≠ m.infoHashBytes then
      (.error (.runtimeError "Persisted magnet metadata info hash mismatch."),
        { s with metaInfo := m })
    else
      (.ok (), { s with
        metaInfo := m
        numPieces := m.info.numPieces
        pieceStatus := List.replicate m.info.numPieces .needed })

end Load

def hasMetadata (s : SessionState) : Bool :=
  s.numPieces > 0 && !s.metaInfo.infoBencoded.isEmpty

/-- `SessionState::update_file_stat`; `none` when `at` throws. -/
def updateFileStat (s : SessionState) (fileIdx : Nat) (val : Bool) : Option SessionState :=
  if fileIdx < s.metaInfo.info.files.length then
    some { s with metaInfo := { s.metaInfo with info := { s.metaInfo.info with
      files := s.metaInfo.info.files.modify fileIdx fun file => { file with download := val } } } }
  else none

end SessionState

end P2P
