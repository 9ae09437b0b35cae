import P2P.Native.Bencode

/-!
# Ids of extensions (`TorrentSession.cpp`, `PeerConnection.hpp`, `PeerManager.cpp`)

What a connection remembers of the peer's extended handshake, what `on_extended_message` takes a
message for, and with which ids the client sends.
-/

namespace P2P

open Bencode

inductive ExtendedMessageType where
  | handshake
  | utPex
  | utMetadata
  | unknown
  deriving DecidableEq, Repr

def ExtendedMessageType.toByte : ExtendedMessageType → UInt8
  | handshake => 0
  | utPex => 1
  | utMetadata => 3
  | unknown => 255

def toExtendedType (s : Bytes) : ExtendedMessageType :=
  if s = .ascii "ut_pex" then .utPex
  else if s = .ascii "ut_metadata" then .utMetadata
  else .unknown

/-- `supportedPex` is empty until the call under `call_once` has returned. -/
structure Extensions where
  remoteExtension : OrdMap UInt8 ExtendedMessageType := .empty
  metadataExtId : UInt8 := 0
  supportedPex : Option Bool := none

namespace Extensions

variable (c : Extensions)

def updateExtensionType (index : UInt8) (type : ExtendedMessageType) : Extensions :=
  { c with remoteExtension := c.remoteExtension.insert index type }

/-- `message_type` of `on_extended_message`: the peer's ids come before our own. -/
def messageType (remoteId : UInt8) : ExtendedMessageType :=
  match ((c.updateExtensionType 0 .handshake).remoteExtension.get? remoteId).getD .unknown with
  | .unknown => if remoteId = 1 then .utPex else if remoteId = 3 then .utMetadata else .unknown
  | type => type

def addTypes : Dict → Extensions → Option Extensions
  | [], c => some c
  | (k, .int v) :: rest, c =>
    addTypes rest (if toExtendedType k = .unknown then c
      else c.updateExtensionType v.toUInt64.toUInt8 (toExtendedType k))
  | _ :: _, _ => none

def setMetadataId : Dict → Extensions → Option Extensions
  | [], c => some c
  | (k, .int v) :: rest, c =>
    setMetadataId rest (if k = .ascii "ut_metadata" then
      { c with metadataExtId := v.toUInt64.toUInt8 } else c)
  | _ :: _, _ => none

def entriesOf : Value → Dict
  | .dict m => m
  | _ => []

def holdsString : Value → Bool
  | .str _ => true
  | _ => false

def holdsInteger : Value → Bool
  | .int _ => true
  | _ => false

def onHandshake (payload : Bytes) : Option Extensions :=
  match decode payload with
  | .error _ => none
  | .ok (.dict ehs) =>
    match Assoc.find? ehs (.ascii "m") with
    | none => some c
    | some m => do
      let c ← addTypes (entriesOf m) c
      guard ((Assoc.find? ehs (.ascii "v")).all holdsString)
      let c ← setMetadataId (entriesOf m) c
      guard ((Assoc.find? ehs (.ascii "metadata_size")).all holdsInteger)
      return c
  | .ok _ => some c

/-- The id with which `pex_loop` sends, if it does, and `supported_pex`, which is computed once. -/
def pexRound : Option UInt8 × Extensions :=
  let supported := c.supportedPex.getD (c.remoteExtension.entries.any (·.2 = .utPex))
  (if supported then some ExtendedMessageType.utPex.toByte else none,
    { c with supportedPex := some supported })

/-- The id with which `on_extended_message` answers a request for metadata. -/
def metadataReplyId : UInt8 := c.metadataExtId

/-- `ext_id` of a `request_metadata_from_peer` that starts now; it is kept for all its requests. -/
def metadataRequestId : Option UInt8 := if c.metadataExtId = 0 then none else some c.metadataExtId

inductive Step where
  | received (remoteId : UInt8) (payload : Bytes)
  | pexRound

def step : Step → Option Extensions
  | .received remoteId payload =>
    let updated := c.updateExtensionType 0 .handshake
    if c.messageType remoteId = .handshake then updated.onHandshake payload else some updated
  | .pexRound => some c.pexRound.2

end Extensions

end P2P
