import P2P.ForStd.Path
import P2P.Native.Bencode

/-!
# Torrent metadata (`TorrentFile.hpp`)

`populate_torrent_info_from_dict`, the loaders of `MetaInfo` and the dictionary of
`create_from_file`.
-/

namespace P2P

open Bencode Assoc

inductive Fault where
  | outOfRange
  | badVariantAccess
  | lengthError
  | badAlloc
  | runtimeError (what : String)
  | undefinedBehaviour
  deriving DecidableEq, Repr

abbrev Throwing (σ : Type) := ExceptT Fault (StateM σ)

namespace Throwing

variable {σ α β : Type}

theorem run_bind (x : Throwing σ α) (f : α → Throwing σ β) (s : σ) :
    (x >>= f).run.run s =
      match x.run.run s with
      | (.ok a, s') => (f a).run.run s'
      | (.error e, s') => (.error e, s') := by
  simp only [ExceptT.run_bind, StateT.run_bind]
  cases x.run.run s with
  | mk r s' => cases r <;> rfl

theorem run_pure (a : α) (s : σ) : (pure a : Throwing σ α).run.run s = (.ok a, s) := rfl

theorem run_get (s : σ) : (get : Throwing σ σ).run.run s = (.ok s, s) := rfl

theorem run_modify (f : σ → σ) (s : σ) :
    (modify f : Throwing σ PUnit).run.run s = (.ok (), f s) := rfl

theorem run_throw (e : Fault) (s : σ) :
    (throw e : Throwing σ α).run.run s = (.error e, s) := rfl

theorem run_ite (c : Prop) [Decidable c] (x y : Throwing σ α) (s : σ) :
    (if c then x else y).run.run s = if c then x.run.run s else y.run.run s := by
  split <;> rfl

theorem bind_ok {x : Throwing σ α} {f : α → Throwing σ β} {s s'' : σ} {b : β}
    (h : (x >>= f).run.run s = (.ok b, s'')) :
    ∃ a s', x.run.run s = (.ok a, s') ∧ (f a).run.run s' = (.ok b, s'') := by
  rw [run_bind] at h
  cases hx : x.run.run s with
  | mk r s' =>
    rw [hx] at h
    cases r with
    | error e => exact nomatch (Prod.mk.inj h).1
    | ok a => exact ⟨a, s', rfl, h⟩

end Throwing

structure FileInfo where
  path : PosixPath
  size : UInt64
  download : Bool := true
  deriving DecidableEq

structure TorrentInfo where
  name : Bytes := []
  totalSize : UInt64 := 0
  pieceSize : UInt32 := 0
  pieces : Bytes := []
  files : List FileInfo := []
  deriving DecidableEq

structure MetaInfo where
  info : TorrentInfo := {}
  infoHashBytes : Bytes := []
  infoBencoded : Bytes := []

/-! ## Access to decoded values -/

section Access

variable {σ : Type}

def dictAt (d : Dict) (key : String) : Throwing σ Value :=
  match find? d (Bytes.ascii key) with
  | some v => pure v
  | none => throw .outOfRange

def dictCount (d : Dict) (key : String) : Bool := (find? d (Bytes.ascii key)).isSome

def getInteger : Value → Throwing σ Int64
  | .int i => pure i
  | _ => throw .badVariantAccess

def getString : Value → Throwing σ Bytes
  | .str s => pure s
  | _ => throw .badVariantAccess

def getList : Value → Throwing σ (List Value)
  | .list l => pure l
  | _ => throw .badVariantAccess

def getDict : Value → Throwing σ Dict
  | .dict d => pure d
  | _ => throw .badVariantAccess

def derefList : Value → Throwing σ (List Value)
  | .list l => pure l
  | _ => throw .undefinedBehaviour

def derefDict : Value → Throwing σ Dict
  | .dict d => pure d
  | _ => throw .undefinedBehaviour

end Access

/-! ## `populate_torrent_info_from_dict` -/

def joinPath : List Value → PosixPath → Throwing TorrentInfo PosixPath
  | [], p => pure p
  | v :: parts, p => do
    let part ← getString v
    joinPath parts (p.append ⟨part⟩)

def populateFiles : List Value → Throwing TorrentInfo Unit
  | [] => pure ()
  | fileVal :: rest => do
    let fileDict ← derefDict fileVal
    let length ← getInteger (← dictAt fileDict "length")
    let pathList ← derefList (← dictAt fileDict "path")
    let filePath ← joinPath pathList PosixPath.empty
    modify fun info => { info with
      files := info.files ++ [{ path := filePath, size := length.toUInt64 }]
      totalSize := info.totalSize + length.toUInt64 }
    populateFiles rest

def populateTorrentInfoFromDict (infoDict : Dict) : Throwing TorrentInfo Unit := do
  set ({} : TorrentInfo)
  let name ← getString (← dictAt infoDict "name")
  modify fun info => { info with name := name }
  let pieceLength ← getInteger (← dictAt infoDict "piece length")
  -- the conversion to `uint32_t` drops the high half
  modify fun info => { info with pieceSize := pieceLength.toUInt64.toUInt32 }
  let piecesStr ← getString (← dictAt infoDict "pieces")
  modify fun info => { info with pieces := piecesStr }
  if piecesStr.length % 20 ≠ 0 then
    throw (.runtimeError "Invalid pieces length in torrent metadata.")
  if dictCount infoDict "length" then
    let length ← getInteger (← dictAt infoDict "length")
    modify fun info => { info with
      totalSize := length.toUInt64
      files := info.files ++ [{ path := ⟨name⟩, size := length.toUInt64 }] }
  else
    let fileList ← derefList (← dictAt infoDict "files")
    populateFiles fileList

def MetaInfo.populate (m : MetaInfo) (infoDict : Dict) : Except Fault Unit × MetaInfo :=
  let (r, info) := (populateTorrentInfoFromDict infoDict).run.run m.info
  (r, { m with info := info })

/-! ## `MetaInfo::load_from_file` -/

def readTiers : List Value → Throwing (MetaInfo × List (List Bytes)) Unit
  | [] => pure ()
  | tierVal :: rest => do
    let tierList ← getList tierVal
    let currentTier ← tierList.mapM getString
    if !currentTier.isEmpty then
      modify fun (m, tiers) => (m, tiers ++ [currentTier])
    readTiers rest

def readTrackers (metainfoDict : Dict) : Throwing (MetaInfo × List (List Bytes)) Unit := do
  modify fun (m, _) => (m, [])
  if dictCount metainfoDict "announce-list" then
    let announceList ← getList (← dictAt metainfoDict "announce-list")
    readTiers announceList
  if (← get).2.isEmpty && dictCount metainfoDict "announce" then
    match ← dictAt metainfoDict "announce" with
    | .str s => modify fun (m, tiers) => (m, tiers ++ [[s]])
    | _ => throw (.runtimeError "Missing or invalid 'announce' key.")
  if (← get).2.isEmpty then
    throw (.runtimeError
      "No valid 'announce' or 'announce-list' trackers found in torrent file.")

section Load

variable (sha1 : Bytes → Bytes)

/-- The end of `load_from_file`: the info dictionary is encoded back, and that is hashed. -/
def loadInfoDict (infoDict : Dict) : Throwing (MetaInfo × List (List Bytes)) Unit :=
  ExceptT.mk fun (m, tiers) =>
    let infoBencoded := encode (.dict infoDict)
    let m := { m with infoBencoded := infoBencoded, infoHashBytes := sha1 infoBencoded }
    let (r, m') := m.populate infoDict
    (r, (m', tiers))

def loadMetainfo (bencodedData : Bytes) : Throwing (MetaInfo × List (List Bytes)) Unit := do
  match decode bencodedData with
  | .error e => throw (.runtimeError e.what)
  | .ok (.dict metainfoDict) =>
    readTrackers metainfoDict
    match ← dictAt metainfoDict "info" with
    | .dict infoDict => loadInfoDict sha1 infoDict
    | _ => throw (.runtimeError "Missing or invalid 'info' dictionary.")
  | .ok _ => throw (.runtimeError "Torrent file is not a dictionary.")

/-- What a loader returns: exceptions are caught as `false`; undefined behaviour (`none`) is not. -/
def caught : Except Fault Unit → Option Bool
  | .ok _ => some true
  | .error .undefinedBehaviour => none
  | .error _ => some false

/-- `MetaInfo::load_from_file` on the content of the file (`none` when it cannot be opened). -/
def loadFromFile (file : Option Bytes) (m : MetaInfo) (tiers : List (List Bytes)) :
    Option Bool × MetaInfo × List (List Bytes) :=
  match file with
  | none => (some false, m, tiers)
  | some bencodedData =>
    let (r, s) := (loadMetainfo sha1 bencodedData).run.run (m, tiers)
    (caught r, s)

/-! ## `MetaInfo::load_from_info_bytes` -/

def loadFromInfoBytes (infoBencoded : Bytes) (m : MetaInfo) : Option Bool × MetaInfo :=
  match decode infoBencoded with
  | .ok (.dict infoDict) =>
    let m := { m with infoBencoded := infoBencoded, infoHashBytes := sha1 infoBencoded }
    let (r, m') := m.populate infoDict
    (caught r, m')
  | _ => (some false, m)

/-! ## `MetaInfo::create_from_file` -/

/-- A file below the source path: its components, the result of `file_size`, and its content unless
    it cannot be opened. -/
structure SourceFile where
  path : List Bytes
  size : UInt64
  content : Option Bytes

/-- What a torrent is created from; `gather_files` has listed the files of a directory. -/
inductive Source where
  | file (name : Bytes) (size : UInt64) (content : Option Bytes)
  | directory (name : Bytes) (files : List SourceFile)

def Source.name : Source → Bytes
  | .file name _ _ => name
  | .directory name _ => name

def Source.contents : Source → List (Option Bytes)
  | .file _ _ content => [content]
  | .directory _ files => files.map SourceFile.content

def hashFile (pieceSize : Nat) (content pieceBuffer allPieceHashes : Bytes) : Bytes × Bytes :=
  let count := pieceSize - pieceBuffer.length
  let filled := pieceBuffer ++ content.take count
  let (pieceBuffer, allPieceHashes) :=
    if filled.length = pieceSize then ([], allPieceHashes ++ sha1 filled)
    else (filled, allPieceHashes)
  if content.length < count ∨ count = 0 then (pieceBuffer, allPieceHashes)
  else hashFile pieceSize (content.drop count) pieceBuffer allPieceHashes
termination_by content.length
decreasing_by
  rw [List.length_drop]
  omega

/-- The loop over the files; `none` when one of them cannot be opened. -/
def hashFiles (pieceSize : Nat) : List (Option Bytes) → Bytes → Bytes → Option Bytes
  | [], pieceBuffer, allPieceHashes =>
    some (if pieceBuffer.length > 0 then allPieceHashes ++ sha1 pieceBuffer else allPieceHashes)
  | none :: _, _, _ => none
  | some content :: files, pieceBuffer, allPieceHashes =>
    let (pieceBuffer, allPieceHashes) := hashFile sha1 pieceSize content pieceBuffer allPieceHashes
    hashFiles pieceSize files pieceBuffer allPieceHashes

def sourceEntry (file : SourceFile) : Value :=
  .dict (insert (insert [] (Bytes.ascii "length") (.int file.size.toInt64))
    (Bytes.ascii "path") (.list (file.path.map .str)))

def Source.filesEntry : Source → Bytes × Value
  | .file _ size _ => (Bytes.ascii "length", .int size.toInt64)
  | .directory _ files => (Bytes.ascii "files", .list (files.map sourceEntry))

inductive CreateFault where
  | cannotOpen
  | endless
  deriving DecidableEq, Repr

def createInfoDict (source : Source) (pieceSize : UInt32) : Except CreateFault Dict :=
  -- with a buffer of no bytes a file is read forever
  if pieceSize = 0 ∧ source.contents.head?.join.isSome then .error .endless
  else
    match hashFiles sha1 pieceSize.toNat source.contents [] [] with
    | none => .error .cannotOpen
    | some pieces =>
      .ok (insert (insert (insert
        (insert [] source.filesEntry.1 source.filesEntry.2)
        (Bytes.ascii "name") (.str source.name))
        (Bytes.ascii "piece length") (.int pieceSize.toUInt64.toInt64))
        (Bytes.ascii "pieces") (.str pieces))

end Load

end P2P
