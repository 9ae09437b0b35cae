import Mathlib.Data.Prod.Lex
import P2P.ForStd.Run
import P2P.ForStd.Slice
import P2P.Native.TorrentFile

/-!
# The file manager (`FileManager.cpp`)

The disk cache: blocks are written to it and reach the files when they are evicted or flushed;
blocks that are read are cached too.
-/

namespace P2P

def blockSize : Nat := 16384

def diskCacheSize : Nat := 32 * 1024 * 1024

def u32 (n : Nat) : Nat := n % 2 ^ 32

def u64 (n : Nat) : Nat := n % 2 ^ 64

def sub32 (a b : Nat) : Nat := (a + 2 ^ 32 - b) % 2 ^ 32

def sub64 (a b : Nat) : Nat := (a + 2 ^ 64 - b) % 2 ^ 64

def TorrentInfo.numPieces (info : TorrentInfo) : Nat := info.pieces.length / 20

/-! ## Pieces and files -/

structure PieceFileOverlap where
  fileIndex : Nat
  offsetInFile : Nat
  offsetInPiece : Nat
  length : Nat
  deriving DecidableEq, Repr

structure FileMaps where
  pieceToFiles : List (List PieceFileOverlap)
  fileToPieces : List (List Nat)
  deriving DecidableEq, Repr

inductive MapFault where
  | divisionByZero
  | outOfRange
  | endless
  deriving DecidableEq, Repr

section BuildMaps

variable (info : TorrentInfo)

def mapPieceSize (pieceIdx : Nat) : Nat :=
  if pieceIdx = sub64 info.numPieces 1 then
    if info.totalSize.toNat = 0 then 0
    else
      let remainder := info.totalSize.toNat % info.pieceSize.toNat
      if remainder = 0 then info.pieceSize.toNat else remainder
  else info.pieceSize.toNat

/-- The overlap of a piece with the file from `fileStart` to `fileEnd`, if there is one. -/
def pieceOverlap (fileIdx fileStart fileEnd pieceIdx : Nat) : Option PieceFileOverlap :=
  let pieceStart := u64 (pieceIdx * info.pieceSize.toNat)
  let pieceEnd := u64 (pieceStart + mapPieceSize info pieceIdx)
  let overlapStart := max fileStart pieceStart
  let overlapEnd := min fileEnd pieceEnd
  if overlapEnd > overlapStart then
    some {
      fileIndex := fileIdx
      offsetInFile := sub64 overlapStart fileStart
      offsetInPiece := u32 (sub64 overlapStart pieceStart)
      length := u32 (sub64 overlapEnd overlapStart) }
  else none

def mapPieces (fileIdx fileStart fileEnd : Nat) : Nat → Nat → FileMaps → Except MapFault FileMaps
  | 0, _, maps => .ok maps
  | count + 1, pieceIdx, maps =>
    match pieceOverlap info fileIdx fileStart fileEnd pieceIdx with
    | none => mapPieces fileIdx fileStart fileEnd count (pieceIdx + 1) maps
    | some overlap =>
      if pieceIdx < maps.pieceToFiles.length then
        mapPieces fileIdx fileStart fileEnd count (pieceIdx + 1) {
          pieceToFiles := maps.pieceToFiles.modify pieceIdx (· ++ [overlap])
          fileToPieces := maps.fileToPieces.modify fileIdx (· ++ [pieceIdx]) }
      else .error .outOfRange

def endPiece (fileEnd size startPiece : Nat) : Nat :=
  let last :=
    if size = 0 then startPiece else u32 (sub64 fileEnd 1 / info.pieceSize.toNat)
  if last ≥ info.numPieces then u32 (sub64 info.numPieces 1) else last

def mapFiles : List FileInfo → Nat → Nat → FileMaps → Except MapFault FileMaps
  | [], _, _, maps => .ok maps
  | file :: files, fileIdx, fileStart, maps =>
    if info.pieceSize.toNat = 0 then .error .divisionByZero
    else
      let fileEnd := u64 (fileStart + file.size.toNat)
      let startPiece := u32 (fileStart / info.pieceSize.toNat)
      let lastPiece := endPiece info fileEnd file.size.toNat startPiece
      match mapPieces info fileIdx fileStart fileEnd (lastPiece + 1 - startPiece)
        startPiece maps with
      | .error e => .error e
      | .ok maps =>
        -- no `uint32_t` is greater than the largest one, so that loop never ends
        if lastPiece = 2 ^ 32 - 1 then .error .endless
        else mapFiles files (fileIdx + 1) (u64 (fileStart + file.size.toNat)) maps

def buildMaps : Except MapFault FileMaps :=
  mapFiles info info.files 0 0 {
    pieceToFiles := List.replicate info.numPieces []
    fileToPieces := List.replicate info.files.length [] }

end BuildMaps

/-! ## The state -/

structure CacheKey where
  piece : Nat
  offset : Nat
  deriving DecidableEq, Repr

instance : LinearOrder CacheKey :=
  LinearOrder.lift' (fun k => toLex (k.piece, k.offset)) fun a b h => by
    cases a
    cases b
    simpa using congrArg ofLex h

structure FileWrite where
  path : PosixPath
  offset : Nat
  data : Bytes
  deriving DecidableEq

/-- A block is put into the cache by `write_piece`, or a write of a block to a file is tried. -/
inductive Event where
  | put (key : CacheKey) (data : Bytes)
  | write (key : CacheKey) (write : FileWrite) (done : Bool)
  deriving DecidableEq

inductive WriteOutcome where
  | success
  | failure (written : Nat)

/-- What a file manager does not change: the torrent, its maps, its place, and the file system. -/
structure Env where
  info : TorrentInfo
  maps : FileMaps
  savePath : PosixPath
  resolve : PosixPath → Nat
  outcome : List Event → WriteOutcome

structure FileManager where
  cache : OrdMap CacheKey Bytes := OrdMap.empty
  lruOrder : List (Nat × CacheKey) := []
  lruIndex : OrdMap CacheKey Nat := OrdMap.empty
  nextNode : Nat := 0
  dirtyBlocks : OrdMap CacheKey Unit := OrdMap.empty
  cacheCurrentSize : Nat := 0
  ioCancelled : Bool := false
  disk : Nat → Option Bytes
  log : List Event := []

def Env.getFullPathForFile (E : Env) (file : FileInfo) : PosixPath :=
  let fullPath := E.savePath.append ⟨E.info.name⟩
  if E.info.files.length > 1 then fullPath.append file.path else fullPath

namespace FileManager

variable (E : Env)

/-! ## Access to files -/

/-- The write of `async_write_to_file` and `sync_write_block`: the file exists, and `seekp` accepts
    the offset. -/
def writeFile (key : CacheKey) (w : FileWrite) (m : FileManager) : Bool × FileManager :=
  let file := E.resolve w.path
  let failed : FileManager := { m with log := .write key w false :: m.log }
  match m.disk file with
  | none => (false, failed)
  | some content =>
    if w.offset < 2 ^ 63 then
      match E.outcome m.log with
      | .success =>
        (true, { m with
          disk := Function.update m.disk file (some (content.overwrite 0 w.offset w.data))
          log := .write key w true :: m.log })
      | .failure written =>
        (false, { failed with
          disk := Function.update m.disk file
            (some (content.overwrite 0 w.offset (w.data.take written))) })
    else (false, failed)

inductive ReadError where
  | operationCanceled
  | ioError
  | shortBlock
  deriving DecidableEq, Repr

def ReadError.what : ReadError → String
  | .operationCanceled => "async_read_from_file: Operation canceled"
  | .ioError => "async_read_from_file: Input/output error"
  | .shortBlock => "Failed to read full block from storage."

def asyncReadFromFile (m : FileManager) (path : PosixPath) (offset size : Nat) :
    Except ReadError Bytes :=
  if m.ioCancelled then .error .operationCanceled
  else match m.disk (E.resolve path) with
  | none => .error .ioError
  | some content =>
    if u64 (offset + size) > content.length then .error .ioError
    else
      let size := if size = 0 then u32 content.length else size
      if offset ≥ 2 ^ 63 then .error .ioError
      else if (content.slice offset size).length = size then .ok (content.slice offset size)
      else .error .ioError

/-! ## Cache helpers -/

def touchCache (m : FileManager) (key : CacheKey) : FileManager :=
  let order := match m.lruIndex.get? key with
    | some node => m.lruOrder.eraseP (·.1 = node)
    | none => m.lruOrder
  { m with
    lruOrder := (m.nextNode, key) :: order
    lruIndex := m.lruIndex.insert key m.nextNode
    nextNode := m.nextNode + 1 }

def blockWrites (key : CacheKey) (data : Bytes) : List PieceFileOverlap → List FileWrite
  | [] => []
  | overlap :: overlaps =>
    match E.info.files[overlap.fileIndex]? with
    | none => []
    | some file =>
      if !file.download then blockWrites key data overlaps
      else
        let blockEnd := u32 (key.offset + u32 data.length)
        let overlapStart := overlap.offsetInPiece
        let overlapEnd := u32 (overlapStart + overlap.length)
        let intersectStart := max key.offset overlapStart
        let intersectEnd := min blockEnd overlapEnd
        if intersectEnd > intersectStart then
          { path := E.getFullPathForFile file
            offset := u64 (overlap.offsetInFile + sub32 intersectStart overlapStart)
            data := data.slice (sub32 intersectStart key.offset)
              (sub32 intersectEnd intersectStart) } :: blockWrites key data overlaps
        else blockWrites key data overlaps

/-- The writes of a block in order; the first one that fails ends them. -/
def writeAll (key : CacheKey) : List FileWrite → FileManager → FileManager
  | [], m => m
  | w :: ws, m =>
    match writeFile E key w m with
    | (true, m) => writeAll key ws m
    | (false, m) => m

def writesOf (key : CacheKey) (data : Bytes) : Option (List FileWrite) :=
  (E.maps.pieceToFiles[key.piece]?).map (blockWrites E key data)

def syncWriteBlock (key : CacheKey) (data : Bytes) (m : FileManager) : Option FileManager :=
  if data.isEmpty then some m
  else (writesOf E key data).map fun ws => writeAll E key ws m

/-- One round of `evict_if_needed`, on the key that was used least recently. -/
def evictBack (m : FileManager) (evictKey : CacheKey) : Option FileManager :=
  let m := { m with
    lruOrder := m.lruOrder.dropLast
    lruIndex := m.lruIndex.erase evictKey }
  match m.cache.get? evictKey with
  | none => some { m with dirtyBlocks := m.dirtyBlocks.erase evictKey }
  | some data => do
    let m ← if m.dirtyBlocks.contains evictKey then
        (syncWriteBlock E evictKey data m).map fun m =>
          { m with dirtyBlocks := m.dirtyBlocks.erase evictKey }
      else some m
    some { m with
      cacheCurrentSize := sub64 m.cacheCurrentSize data.length
      cache := m.cache.erase evictKey }

def evictLoop : Nat → FileManager → Option FileManager
  | 0, m => some m
  | rounds + 1, m =>
    if m.cacheCurrentSize > diskCacheSize then
      match m.lruOrder.getLast? with
      | none => some m
      | some (_, evictKey) => (evictBack E m evictKey).bind (evictLoop rounds)
    else some m

def evictIfNeeded (m : FileManager) : Option FileManager := evictLoop E m.lruOrder.length m

def toFlush (m : FileManager) : List (CacheKey × Bytes) :=
  m.dirtyBlocks.entries.filterMap fun (key, _) => (m.cache.get? key).map fun data => (key, data)

def takeDirty (m : FileManager) : List (CacheKey × Bytes) × FileManager :=
  (m.toFlush, { m with dirtyBlocks := OrdMap.empty })

def syncFlushBlocks : List (CacheKey × Bytes) → FileManager → Option FileManager
  | [], m => some m
  | (key, data) :: blocks, m => (syncWriteBlock E key data m).bind (syncFlushBlocks blocks)

def syncFlushAllDirty (m : FileManager) : Option FileManager :=
  syncFlushBlocks E m.takeDirty.1 m.takeDirty.2

def asyncWriteToFile (key : CacheKey) (w : FileWrite) (m : FileManager) : Bool × FileManager :=
  if m.ioCancelled then (false, { m with log := .write key w false :: m.log })
  else writeFile E key w m

def asyncWriteAll (key : CacheKey) : List FileWrite → FileManager → FileManager
  | [], m => m
  | w :: ws, m =>
    match asyncWriteToFile E key w m with
    | (true, m) => asyncWriteAll key ws m
    | (false, m) => m

def flushBlocks : List (CacheKey × Bytes) → FileManager → Option FileManager
  | [], m => some m
  | (key, data) :: blocks, m =>
    ((writesOf E key data).map fun ws => asyncWriteAll E key ws m).bind (flushBlocks blocks)

def flushAllDirty (m : FileManager) : Option FileManager :=
  flushBlocks E m.takeDirty.1 m.takeDirty.2

/-! ## `FileManager::write_piece` -/

def putBlock (m : FileManager) (key : CacheKey) (blockData : Bytes) : Option FileManager :=
  (evictIfNeeded E m).map fun m =>
    let size := match m.cache.get? key with
      | some existing => sub64 m.cacheCurrentSize existing.length
      | none => m.cacheCurrentSize
    let m := touchCache { m with cache := m.cache.insert key blockData } key
    { m with
      cacheCurrentSize := u64 (size + blockData.length)
      dirtyBlocks := m.dirtyBlocks.insert key ()
      log := .put key blockData :: m.log }

/-- The loop of `write_piece`; `none` when it is not over after `rounds` rounds. -/
def writeBlocks (pieceIndex : Nat) (pieceData : Bytes) : Nat → Nat → FileManager →
    Option FileManager
  | 0, offset, m => if offset < pieceData.length then none else some m
  | rounds + 1, offset, m =>
    if offset < pieceData.length then
      let size := min blockSize (u32 (pieceData.length - offset))
      (putBlock E m ⟨pieceIndex, offset⟩ (pieceData.slice offset size)).bind
        (writeBlocks pieceIndex pieceData rounds (u32 (offset + blockSize)))
    else some m

def writePiece (m : FileManager) (pieceIndex : Nat) (pieceData : Bytes) : Option FileManager :=
  writeBlocks E pieceIndex pieceData (pieceData.length / blockSize + 1) 0 m

/-! ## `FileManager::read_block` -/

variable (m : FileManager)

def readPart (globalOffset length : Nat) (file : FileInfo)
    (currentFileOffset readForBlock : Nat) (block : Bytes) : Except ReadError (Nat × Bytes) :=
  let fileEnd := u64 (currentFileOffset + file.size.toNat)
  let readStart := u64 (globalOffset + readForBlock)
  if readStart < fileEnd then
    let readPosInFile := sub64 readStart currentFileOffset
    let bytesToRead :=
      u32 (min (sub32 length readForBlock) (sub64 file.size.toNat readPosInFile))
    if bytesToRead > 0 then
      match asyncReadFromFile E m (E.getFullPathForFile file) readPosInFile bytesToRead with
      | .error e => .error e
      | .ok part => .ok (u32 (readForBlock + bytesToRead), block.overwrite 0 readForBlock part)
    else .ok (readForBlock, block)
  else .ok (readForBlock, block)

def readFiles (globalOffset length : Nat) :
    List FileInfo → Nat → Nat → Bytes → Except ReadError (Nat × Bytes)
  | [], _, readForBlock, block => .ok (readForBlock, block)
  | file :: files, currentFileOffset, readForBlock, block =>
    let next := u64 (currentFileOffset + file.size.toNat)
    if !file.download then readFiles globalOffset length files next readForBlock block
    else
      match readPart E m globalOffset length file currentFileOffset readForBlock block with
      | .error e => .error e
      | .ok (readForBlock, block) =>
        if readForBlock = length then .ok (readForBlock, block)
        else readFiles globalOffset length files next readForBlock block

def readFromDisk (key : CacheKey) (length : Nat) : Except ReadError Bytes :=
  let globalOffset := u64 (u64 (key.piece * E.info.pieceSize.toNat) + key.offset)
  match readFiles E m globalOffset length E.info.files 0 0 (List.replicate length 0) with
  | .error e => .error e
  | .ok (readForBlock, block) =>
    if readForBlock = length then .ok block else .error .shortBlock

def cacheRead (key : CacheKey) (block : Bytes) : Option FileManager :=
  (evictIfNeeded E m).map fun m =>
    let m := touchCache { m with cache := m.cache.insert key block } key
    { m with
      cacheCurrentSize := u64 (m.cacheCurrentSize + block.length)
      dirtyBlocks := m.dirtyBlocks.erase key }

def cached (key : CacheKey) (length : Nat) : Option Bytes :=
  match m.cache.get? key with
  | some data => if data.length ≥ length then some (data.take length) else none
  | none => none

def readBlock (key : CacheKey) (length : Nat) :
    Option (Except ReadError Bytes × FileManager) :=
  match cached m key length with
  | some block => some (.ok block, touchCache m key)
  | none =>
    match readFromDisk E m key length with
    | .error e => some (.error e, m)
    | .ok block => (cacheRead E m key block).map fun m => (.ok block, m)

def start (disk : Nat → Option Bytes) : FileManager := { disk := disk }

end FileManager

/-! ## Runs -/

inductive CacheOp where
  | writePiece (piece : Nat) (data : Bytes)
  | readBlock (piece begin length : Nat)
  | touchCache (key : CacheKey)
  | evictIfNeeded
  | flushAllDirty
  | syncFlushAllDirty

namespace CacheOp

variable (E : Env)

def step (m : FileManager) : CacheOp → Option FileManager
  | .writePiece piece data => m.writePiece E piece data
  | .readBlock piece begin length => (m.readBlock E ⟨piece, begin⟩ length).map (·.2)
  | .touchCache key => some (m.touchCache key)
  | .evictIfNeeded => m.evictIfNeeded E
  | .flushAllDirty => m.flushAllDirty E
  | .syncFlushAllDirty => m.syncFlushAllDirty E

def run : List CacheOp → FileManager → Option FileManager := runSteps (step E)

end CacheOp

/-! ## Flush coroutines -/

structure FlushTask where
  blocks : List (CacheKey × List FileWrite)
  written : Bool := false

structure FileSystem where
  manager : FileManager
  tasks : List FlushTask := []

inductive FlushStep where
  | cache (op : CacheOp)
  | flushStart
  | poolWrite (i : Nat)
  /-- The pool looks at the cancel flag after the write and completes it. -/
  | poolCheck (i : Nat)
  | signalShutdown

namespace FlushStep

variable (E : Env)

def step (s : FileSystem) : FlushStep → Option FileSystem
  | .cache op => (op.step E s.manager).map fun m => { s with manager := m }
  | .flushStart => do
    let (toFlush, m) := s.manager.takeDirty
    let blocks ← toFlush.mapM fun (key, data) =>
      (FileManager.writesOf E key data).map fun ws => (key, ws)
    some { manager := m, tasks := s.tasks ++ [{ blocks := blocks }] }
  | .poolWrite i =>
    match s.tasks[i]? with
    | some ⟨(key, w :: ws) :: blocks, false⟩ =>
      -- an error makes `co_await` throw, and the rest of the block is given up
      if s.manager.ioCancelled then
        some { s with tasks := s.tasks.set i { blocks := blocks } }
      else
        match FileManager.writeFile E key w s.manager with
        | (true, m) => some {
            manager := m
            tasks := s.tasks.set i { blocks := (key, w :: ws) :: blocks, written := true } }
        | (false, m) => some { manager := m, tasks := s.tasks.set i { blocks := blocks } }
    | some ⟨(_, []) :: blocks, false⟩ => some { s with tasks := s.tasks.set i { blocks := blocks } }
    | _ => none
  | .poolCheck i =>
    match s.tasks[i]? with
    | some ⟨(key, _ :: ws) :: blocks, true⟩ =>
      if s.manager.ioCancelled then
        some { s with tasks := s.tasks.set i { blocks := blocks } }
      else some { s with tasks := s.tasks.set i { blocks := (key, ws) :: blocks } }
    | _ => none
  | .signalShutdown => some { s with manager := { s.manager with ioCancelled := true } }

def run : List FlushStep → FileSystem → Option FileSystem := runSteps (step E)

def cacheOps : List FlushStep → List CacheOp
  | [] => []
  | .cache op :: steps => op :: cacheOps steps
  | _ :: steps => cacheOps steps

end FlushStep

end P2P
