import Mathlib.Data.UInt
import P2P.ForStd.Slice
import P2P.Native.TorrentFile

/-!
# Metadata from peers (`TorrentSession::on_extended_message`)

A peer asks for a piece of the info dictionary, or sends one: a bencoded dictionary, with the bytes
of the piece behind it.
-/

namespace P2P

open Bencode

inductive Mode where
  | seed
  | leech
  | hybrid
  deriving DecidableEq, Repr

def metadataPieceSize : UInt64 := 16384

def vectorMaxSize : UInt64 := 2 ^ 63 - 1

structure MetadataState where
  mode : Mode
  infoBencoded : Bytes
  metadataDownloadActive : Bool
  metadataBuffer : Bytes
  metadataPiecesReceived : UInt64
  metadataBufferInitFlag : Bool
  deriving DecidableEq, Repr

inductive MetadataMessage where
  | request (piece : Int64)
  | data (piece : Int64) (totalSize : UInt64) (rawPiece : Bytes)
  deriving DecidableEq, Repr

/-- What the handler does besides its effect on the session. -/
inductive MetadataEvent where
  | ignored
  | sent (extId : UInt8) (payload : Bytes)
  /-- The data has been copied; when `complete` is set, `on_metadata_complete` is awaited next. -/
  | copied (piece : Int64) (offset : UInt64) (rawPiece : Bytes) (complete : Bool)
  deriving DecidableEq, Repr

/-! ## Reading a message -/

/-- `if (msg.count(key)) x = std::get<Integer>(msg.at(key).get_variant());` with `x`
    zero before. -/
def integerOrZero (msg : Dict) (key : String) : Except Fault Int64 :=
  match Assoc.find? msg (Bytes.ascii key) with
  | none => .ok 0
  | some (.int i) => .ok i
  | some _ => .error .badVariantAccess

/-- The handler reads the dictionary; `none` for a message that is ignored. -/
def parseMetadataDict (msg : Dict) (dictEnd : Nat) (payload : Bytes) :
    Except Fault (Option MetadataMessage) := do
  let msgType ← integerOrZero msg "msg_type"
  let piece ← integerOrZero msg "piece"
  if msgType = 0 then
    return some (.request piece)
  else if msgType = 1 then
    let totalSize ← integerOrZero msg "total_size"
    if totalSize.toUInt64 = 0 then return none
    if dictEnd = 0 ∨ dictEnd ≥ payload.length then return none
    return some (.data piece totalSize.toUInt64 (payload.drop dictEnd))
  else
    -- a reject, or a type that is not known
    return none

def parseMetadata (payload : Bytes) : Except Fault (Option MetadataMessage) :=
  if payload.isEmpty then .ok none
  else match decodePrefix payload with
    | .error e => .error (.runtimeError e.what)
    | .ok (.dict msg, dictEnd) => parseMetadataDict msg dictEnd payload
    | .ok _ => .ok none

/-! ## A request for metadata -/

/-- The number of pieces of the info dictionary, through `int` and `size_t` back to `int`. -/
def metadataNumPieces (size : Nat) : Int32 :=
  ((Int32.ofNat size).toInt64.toUInt64 + metadataPieceSize - 1) / metadataPieceSize
    |>.toUInt32.toInt32

def metadataReject (piece : Int64) : Bytes :=
  encode (.dict (Assoc.insert (Assoc.insert [] (Bytes.ascii "msg_type") (.int 2))
    (Bytes.ascii "piece") (.int piece)))

def metadataData (infoBencoded : Bytes) (piece : Int64) : Bytes :=
  let offset := (piece.toUInt64 * metadataPieceSize).toNat
  let length := min metadataPieceSize.toNat (infoBencoded.length - offset)
  encode (.dict (Assoc.insert (Assoc.insert (Assoc.insert []
      (Bytes.ascii "msg_type") (.int 1))
      (Bytes.ascii "piece") (.int piece))
      (Bytes.ascii "total_size") (.int (Int64.ofNat infoBencoded.length)))) ++
    infoBencoded.slice offset length

def onMetadataRequest (extId : UInt8) (piece : Int64) : Throwing MetadataState MetadataEvent := do
  let s ← get
  if s.mode ≠ .seed ∧ s.mode ≠ .hybrid then return .ignored
  if s.infoBencoded.isEmpty then return .ignored
  if piece < 0 ∨ piece ≥ (metadataNumPieces s.infoBencoded.length).toInt64 then
    return .sent extId (metadataReject piece)
  return .sent extId (metadataData s.infoBencoded piece)

/-! ## A piece of metadata -/

/-- `std::call_once(metadata_buffer_init_flag_, …)`: a call that throws does not set the flag. -/
def initMetadataBuffer (allocates : UInt64 → Bool) (totalSize : UInt64) :
    Throwing MetadataState Unit := do
  if (← get).metadataBufferInitFlag then return
  if totalSize > vectorMaxSize then throw .lengthError
  if ¬ allocates totalSize then throw .badAlloc
  modify fun s => { s with
    metadataBuffer := s.metadataBuffer.take totalSize.toNat ++
      List.replicate (totalSize.toNat - s.metadataBuffer.length) 0
    metadataBufferInitFlag := true }

def copyToMetadataBuffer (offset : UInt64) (rawPiece : Bytes) : Throwing MetadataState Unit := do
  if offset.toNat + rawPiece.length ≤ (← get).metadataBuffer.length then
    modify fun s => { s with metadataBuffer := s.metadataBuffer.overwrite 0 offset.toNat rawPiece }
  else
    throw .undefinedBehaviour

def onMetadataData (allocates : UInt64 → Bool) (piece : Int64) (totalSize : UInt64)
    (rawPiece : Bytes) : Throwing MetadataState MetadataEvent := do
  if ¬ (← get).metadataDownloadActive then return .ignored
  initMetadataBuffer allocates totalSize
  let offset := piece.toUInt64 * metadataPieceSize
  if offset + UInt64.ofNat rawPiece.length ≤ UInt64.ofNat (← get).metadataBuffer.length then
    copyToMetadataBuffer offset rawPiece
    modify fun s => { s with metadataPiecesReceived := s.metadataPiecesReceived + 1 }
    let totalPieces := (totalSize + metadataPieceSize - 1) / metadataPieceSize
    return .copied piece offset rawPiece ((← get).metadataPiecesReceived ≥ totalPieces)
  else
    return .ignored

/-! ## The handler -/

/-- The `ut_metadata` branch of `on_extended_message`, up to `on_metadata_complete`; `extId` is the
    peer's id of it. -/
def onUtMetadata (allocates : UInt64 → Bool) (extId : UInt8) (payload : Bytes) :
    Throwing MetadataState MetadataEvent :=
  match parseMetadata payload with
  | .error e => throw e
  | .ok none => return .ignored
  | .ok (some (.request piece)) => onMetadataRequest extId piece
  | .ok (some (.data piece totalSize rawPiece)) => onMetadataData allocates piece totalSize rawPiece

def MetadataState.handle (allocates : UInt64 → Bool) (extId : UInt8) (s : MetadataState)
    (payload : Bytes) : Except Fault MetadataEvent × MetadataState :=
  (onUtMetadata allocates extId payload).run.run s

end P2P
