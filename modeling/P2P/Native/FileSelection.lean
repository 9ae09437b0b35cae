import P2P.Native.TorrentSession

/-!
# The choice of files (`ClientApp.cpp`, `FileManager.cpp`)

`apply_file_selection` marks the files and the pieces that are not wanted before the session starts.
-/

namespace P2P

def SessionState.setPieceStatus (s : SessionState) (piece : Nat) (status : PieceStatus) :
    SessionState :=
  { s with pieceStatus := s.pieceStatus.set piece status }

section Selection

variable (s : SessionState)

/-- The loop of `apply_file_selection` over an unselected file's pieces, `endPiece` included. -/
def skipPieces (fileStart fileEnd startPiece endPiece : Nat) : SessionState :=
  let pieceSize := s.metaInfo.info.pieceSize.toNat
  (List.range' startPiece (min endPiece s.numPieces - startPiece)).foldl
    (fun s piece =>
      let pieceStart := u64 (piece * pieceSize)
      let pieceEnd := u64 (pieceStart + pieceSize)
      if pieceStart ≥ fileStart ∧ pieceEnd ≤ fileEnd then s.setPieceStatus piece .skipped else s)
    s

/-- The loop of `apply_file_selection` over the files; `none` for a piece size of zero. -/
def selectFiles (pieceSize : Nat) :
    List (FileInfo × Bool) → Nat → Nat → SessionState → Option SessionState
  | [], _, _, s => some s
  | (file, selected) :: files, fileIdx, fileOffset, s =>
    if pieceSize = 0 then none
    else
      let fileEnd := u64 (fileOffset + file.size.toNat)
      let startPiece := fileOffset / pieceSize
      let endPiece := sub64 (u64 (fileEnd + pieceSize)) 1 / pieceSize
      if selected then selectFiles pieceSize files (fileIdx + 1) fileEnd s
      else do
        let s ← s.updateFileStat fileIdx false
        selectFiles pieceSize files (fileIdx + 1) fileEnd
          (skipPieces s fileOffset fileEnd startPiece endPiece)

def applyFileSelection (fileSelection : List Bool) : Option SessionState :=
  let info := s.metaInfo.info
  if info.files.length ≠ fileSelection.length then some s
  else selectFiles info.pieceSize.toNat (info.files.zip fileSelection) 0 0 s

end Selection

def addTorrent (sha1 : Bytes → Bytes) (torrentPath : String) (file : Option Bytes)
    (fileSelection : List Bool) : Except Fault SessionState :=
  match SessionState.ofTorrent sha1 torrentPath file with
  | .error e => .error e
  | .ok s =>
    if fileSelection.isEmpty then .ok s
    else match applyFileSelection s fileSelection with
      | none => .error .undefinedBehaviour
      | some s => .ok s

structure Host where
  savePath : PosixPath
  resolve : PosixPath → Nat
  outcome : List Event → WriteOutcome
  createDirectories : PosixPath → Bool
  allocate : PosixPath → UInt64 → Bool
  /-- The user's answer for a file; `none` when there is none in time. -/
  asyncPrompt : Nat → Option Int

namespace Host

variable (H : Host)

def env (info : TorrentInfo) (maps : FileMaps) : Env where
  info := info
  maps := maps
  savePath := H.savePath
  resolve := H.resolve
  outcome := H.outcome

def chooseFile (s : SessionState) (i : Nat) (downloadAllDecision : Option Bool) :
    Option (SessionState × Option Bool) :=
  match downloadAllDecision with
  | some decision => (s.updateFileStat i decision).map fun s => (s, some decision)
  | none =>
    match H.asyncPrompt i with
    | none => none
    | some ans =>
      if ans = 1 then (s.updateFileStat i true).map fun s => (s, none)
      else if ans = 2 then (s.updateFileStat i false).map fun s => (s, none)
      else if ans = 3 then (s.updateFileStat i true).map fun s => (s, some true)
      else if ans = 4 then (s.updateFileStat i false).map fun s => (s, some false)
      else (s.updateFileStat i true).map fun s => (s, none)

/-- A file that does not exist is made and filled with zeros. -/
def allocateFile (path : PosixPath) (size : UInt64) (disk : Nat → Option Bytes) :
    Option (Nat → Option Bytes) :=
  if (disk (H.resolve path)).isSome then some disk
  else if H.allocate path size then
    some (Function.update disk (H.resolve path) (some (List.replicate size.toNat 0)))
  else none

def chooseFiles (maps : FileMaps) : List FileInfo → Nat → Option Bool → SessionState →
    (Nat → Option Bytes) → Option (SessionState × (Nat → Option Bytes))
  | [], _, _, s, disk => some (s, disk)
  | file :: files, i, decision, s, disk => do
    let (s, decision) ← H.chooseFile s i decision
    let fullPath := (H.env s.metaInfo.info maps).getFullPathForFile file
    if s.metaInfo.info.files[i]?.any (·.download) then
      let disk ← H.allocateFile fullPath file.size disk
      chooseFiles maps files (i + 1) decision s disk
    else chooseFiles maps files (i + 1) decision s disk

def isNeeded (info : TorrentInfo) (overlaps : List PieceFileOverlap) : Bool :=
  overlaps.any fun overlap => info.files[overlap.fileIndex]?.any (·.download)

def markPieces (maps : FileMaps) : List Nat → SessionState → Option SessionState
  | [], s => some s
  | piece :: pieces, s => do
    let overlaps ← maps.pieceToFiles[piece]?
    let status := if isNeeded s.metaInfo.info overlaps then .needed else .skipped
    markPieces maps pieces (s.setPieceStatus piece status)

def preallocateFiles (autoApproveAll : Bool) (s : SessionState) (disk : Nat → Option Bytes) :
    Option (SessionState × FileMaps × (Nat → Option Bytes)) :=
  let info := s.metaInfo.info
  match buildMaps info with
  | .error _ => none
  | .ok maps =>
    let baseSavePath :=
      if info.files.length > 1 then H.savePath.append ⟨info.name⟩ else H.savePath
    if ¬ H.createDirectories baseSavePath then none
    else do
      let decision := if autoApproveAll then some true else none
      let (s, disk) ← H.chooseFiles maps info.files 0 decision s disk
      let s ← markPieces maps (List.range s.numPieces) s
      some (s, maps, disk)

/-- `TorrentSession::init` of a session that downloads, which leaves its state and its pieces. -/
def init (sha1 : Bytes → Bytes) (autoApproveAll : Bool) (s : SessionState)
    (disk : Nat → Option Bytes) (resume : Option TorrentSession.ResumeData) :
    Option (SessionState × TorrentSession) :=
  -- without metadata there is nothing to prepare
  if s.numPieces = 0 then
    some (s, { pieceStatus := s.pieceStatus, manager := { disk := disk } })
  else do
    let (s, maps, disk) ← H.preallocateFiles autoApproveAll s disk
    let session ← TorrentSession.init (H.env s.metaInfo.info maps) sha1
      { pieceStatus := s.pieceStatus, manager := { disk := disk } } resume
    some (s, session)

end Host

end P2P
