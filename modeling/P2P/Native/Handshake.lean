import P2P.ForStd.Search
import P2P.Native.AsyncSocket
import P2P.Native.Bencode

/-!
# The handshake of a connection (`AsyncSocket.hpp`, `Mse.hpp`, `PeerConnection.cpp`)

The encrypted handshake of the two sides, the exchange of `perform_handshake`, which falls back to
the plain one, and what the peer is told of our pieces.
-/

namespace P2P

open MessageType

/-! ## Constants and words -/

def dhKeySize : Nat := 96

def rc4DiscardBytes : Nat := 1024

def maxPadSize : Nat := 512

def handshakeLen : Nat := 68

def cryptoPlaintext : UInt32 := 0x00000001

def cryptoRc4 : UInt32 := 0x00000002

def cryptoAll : UInt32 := cryptoPlaintext ||| cryptoRc4

def toBe32 (v : UInt32) : Bytes := hostToNetworkLong v

def fromBe32 (b : Bytes) : UInt32 := networkToHostLong b 0

def toBe16 (v : UInt16) : Bytes := [(v >>> 8).toUInt8, v.toUInt8]

def fromBe16 (b : Bytes) : UInt16 := ((b.getD 0 0).toUInt16 <<< 8) ||| (b.getD 1 0).toUInt16

def verificationConstant : Bytes := List.replicate 8 0

/-! ## Keys -/

/-- `mse::Dh` with a key pair: the public key, and the secret shared with the owner of another. -/
structure DhKeyPair where
  pub : Bytes
  computeSecret : Bytes → Bytes
  pub_length : pub.length = dhKeySize

def hashArray (hash : Bytes) : Bytes := (hash ++ List.replicate 20 0).take 20

section

variable (sha1 : Bytes → Bytes)

def sha1Concat (a b : Bytes) : Bytes := hashArray (sha1 (a ++ b))

def sha1Concat3 (a b c : Bytes) : Bytes := hashArray (sha1 (a ++ b ++ c))

end

def xorBytes (a b : Bytes) : Bytes := List.zipWith (· ^^^ ·) a b

inductive MseResult where
  | rc4 | plaintext | failed
  deriving DecidableEq, Repr

namespace AsyncSocket

open SocketM (modify raise tryCatch)

/-! ## Steps of the negotiation -/

def require (ok : Prop) [Decidable ok] (what : String) : SocketM Unit :=
  if ok then pure () else raise (.runtime what)

def toSecret (b : Bytes) : SocketM Bytes := do
  require (b.length = dhKeySize) "MSE: bad DH key size"
  pure b

/-- `op_before_deadline`: the operation has ended in time, or the deadline has passed. -/
def inTime :
    Except SocketError Unit × AsyncSocket → Coroutine UInt8 (Except SocketError Bool × AsyncSocket)
  | (.ok _, s) => .done (.ok true, s)
  | (.error _, s) => .done (.ok false, s)

def opBeforeDeadline (op : SocketM Unit) : SocketM Bool := ⟨fun s => (op.run s).bind inTime⟩

def fillBefore (need : Nat) (timeout : String) : SocketM Unit := do
  let ok ← opBeforeDeadline (fillBuffer need)
  require (ok = true) timeout

def cryptEncrypt (data : Bytes) : SocketM Bytes := modify fun s =>
  match s.mse with
  | some c => ((c.encrypt.crypt data).1,
      { s with mse := some { c with encrypt := (c.encrypt.crypt data).2 } })
  | none => (data, s)

def cryptDecrypt (data : Bytes) : SocketM Bytes := modify fun s =>
  match s.mse with
  | some c => ((c.decrypt.crypt data).1,
      { s with mse := some { c with decrypt := (c.decrypt.crypt data).2 } })
  | none => (data, s)

def setRc4 (rc4 : Bool) : SocketM Unit := modify fun s =>
  ((), { s with mse := s.mse.map fun c => { c with rc4 } })

/-- `mse_->active = true`; returns the method that is in use now. -/
def activate : SocketM MseResult := modify fun s =>
  (if s.mse.any MseCrypto.rc4 then .rc4 else .plaintext,
    { s with mse := s.mse.map fun c => { c with active := true } })

def resetMse : SocketM Unit := modify fun s => ((), { s with mse := none })

def discardRc4 (r : Rc4) : Rc4 := (r.crypt (List.replicate rc4DiscardBytes 0)).2

def initStreams (encryptKey decryptKey : Bytes) : SocketM Unit :=
  match Rc4.init encryptKey, Rc4.init decryptKey with
  | .ok encrypt, .ok decrypt => modify fun s =>
      ((), { s with mse := some { encrypt := discardRc4 encrypt, decrypt := discardRc4 decrypt } })
  | .error what, _ => raise (.runtime what)
  | _, .error what => raise (.runtime what)

def scanFor (pattern : Bytes) (limit : Nat) (notFound timeout : String) : Nat → SocketM Nat
  | 0 => raise (.runtime notFound)
  | fuel + 1 => do
    let buffered ← modify fun s => (s.unread, s)
    match search pattern buffered with
    | some off => pure off
    | none => do
      require (buffered.length < limit) notFound
      fillBefore (buffered.length + 1) timeout
      scanFor pattern limit notFound timeout fuel

/-- `read_dec`: bytes are read before the deadline and deciphered. -/
def readDec (n : Nat) (timeout : String) : SocketM Bytes := do
  fillBefore n timeout
  let v ← consumeBytes n
  cryptDecrypt v

def readPad (n : Nat) (timeout : String) : SocketM Unit :=
  if 0 < n then do
    let _ ← readDec n timeout
    pure ()
  else pure ()

section

variable (sha1 : Bytes → Bytes)

def syncHash (secret : Bytes) : Bytes := sha1Concat sha1 (.ascii "req1") secret

def skeyHash (skey : Bytes) : Bytes := sha1Concat sha1 (.ascii "req2") skey

def skeyMask (secret : Bytes) : Bytes := sha1Concat sha1 (.ascii "req3") secret

def keyA (secret skey : Bytes) : Bytes := sha1Concat3 sha1 (.ascii "keyA") secret skey

def keyB (secret skey : Bytes) : Bytes := sha1Concat3 sha1 (.ascii "keyB") secret skey

/-! ## The initiator -/

def takeSelect (select : UInt32) : SocketM Unit :=
  if select = cryptoPlaintext then setRc4 false
  else if select = cryptoRc4 then setRc4 true
  else raise (.runtime "MSE: peer selected unsupported crypto method")

/-- Step 4 of the initiator: the scan up to the enciphered constant, the selected method, the peer's
    handshake. -/
def awaitReply : SocketM (MseResult × Bytes) := do
  let vcCt ← cryptDecrypt verificationConstant
  let off ← scanFor vcCt (maxPadSize + 8) "MSE: verification constant not found"
    "MSE: timeout scanning for verification constant" (maxPadSize + 9)
  let _ ← consumeBytes (off + 8)
  let hdr ← readDec 6 "MSE: timeout reading crypto select"
  takeSelect (fromBe32 (hdr.take 4))
  let peerLenPad := (fromBe16 (hdr.drop 4)).toNat
  require (peerLenPad ≤ maxPadSize) "MSE: invalid pad size"
  readPad peerLenPad "MSE: timeout reading pad"
  let peerHs ← readDec handshakeLen "MSE: timeout reading peer handshake"
  let result ← activate
  pure (result, peerHs)

def initiate (dh : DhKeyPair) (skey btHandshake : Bytes) : SocketM (MseResult × Bytes) := do
  require (btHandshake.length = handshakeLen) "MSE: BT handshake must be 68 bytes"
  -- step 1: the public key, without padding
  sendRaw dh.pub
  -- step 2: the public key of the peer
  fillBefore 96 "MSE: timeout waiting for DH key"
  let yb ← consumeBytes 96
  let peerPub ← toSecret yb
  let secret := dh.computeSecret peerPub
  initStreams (keyA sha1 secret skey) (keyB sha1 secret skey)
  -- step 3: the hashes, the encrypted block and the encrypted handshake
  let block ← cryptEncrypt (verificationConstant ++ toBe32 cryptoAll ++ toBe16 0 ++
    toBe16 (UInt16.ofNat handshakeLen))
  let ia ← cryptEncrypt btHandshake
  sendRaw (syncHash sha1 secret ++ xorBytes (skeyHash sha1 skey) (skeyMask sha1 secret) ++
    block ++ ia)
  awaitReply

def mseFailed : SocketM (MseResult × Bytes) := do
  resetMse
  pure (.failed, [])

def mseHandshakeInitiator (dh : DhKeyPair) (skey btHandshake : Bytes) :
    SocketM (MseResult × Bytes) :=
  tryCatch (initiate sha1 dh skey btHandshake) mseFailed

/-! ## The acceptor -/

def chooseSelect (provide : UInt32) : SocketM UInt32 :=
  if provide &&& cryptoRc4 ≠ 0 then pure cryptoRc4
  else if provide &&& cryptoPlaintext ≠ 0 then pure cryptoPlaintext
  else raise (.runtime "MSE: no common crypto method")

/-- Step 4: the reply, which is only encrypted under RC4. -/
def step4 (select : UInt32) : SocketM Bytes :=
  if select = cryptoRc4 then
    cryptEncrypt (verificationConstant ++ toBe32 select ++ toBe16 0)
  else pure (verificationConstant ++ toBe32 select ++ toBe16 0)

/-- What the acceptor reads from the sync hash on: the methods offered, and the peer's handshake. -/
def readHello (secret skey : Bytes) : SocketM (UInt32 × Bytes) := do
  let off ← scanFor (syncHash sha1 secret) (maxPadSize + 40) "MSE: sync hash not found"
    "MSE: timeout scanning for sync hash" (maxPadSize + 41)
  let _ ← consumeBytes off
  let _ ← consumeBytes 20
  fillBefore 20 "MSE: timeout reading skey"
  let obf ← consumeBytes 20
  require (xorBytes obf (skeyMask sha1 secret) = skeyHash sha1 skey)
    "MSE: peer is looking for a different torrent"
  let vc ← readDec 8 "MSE: timeout reading encrypted block"
  require (vc = verificationConstant) "MSE: invalid encryption constant"
  let provide ← readDec 4 "MSE: timeout reading encrypted block"
  let lenPad ← readDec 2 "MSE: timeout reading encrypted block"
  require ((fromBe16 lenPad).toNat ≤ maxPadSize) "MSE: invalid pad size"
  readPad (fromBe16 lenPad).toNat "MSE: timeout reading encrypted block"
  let lenIa ← readDec 2 "MSE: timeout reading encrypted block"
  require ((fromBe16 lenIa).toNat = handshakeLen) "MSE: unexpected initial payload length"
  let ia ← readDec (fromBe16 lenIa).toNat "MSE: timeout reading encrypted block"
  pure (fromBe32 provide, ia)

def sendReply (provide : UInt32) : SocketM MseResult := do
  let select ← chooseSelect provide
  setRc4 (select = cryptoRc4)
  let reply ← step4 select
  sendRaw reply
  activate

/-- `mse_handshake_acceptor` for a peer that has not begun with `0x13`. -/
def acceptEncrypted (dh : DhKeyPair) (skey : Bytes) : SocketM (MseResult × Bytes) := do
  fillBefore 96 "MSE: timeout reading DH key"
  let ya ← consumeBytes 96
  sendRaw dh.pub
  let peerPub ← toSecret ya
  let secret := dh.computeSecret peerPub
  initStreams (keyB sha1 secret skey) (keyA sha1 secret skey)
  let hello ← readHello sha1 secret skey
  let result ← sendReply hello.1
  pure (result, hello.2)

def accept (dh : DhKeyPair) (skey : Bytes) : SocketM (MseResult × Bytes) := do
  fillBefore 1 "MSE: timeout waiting for first byte"
  let first ← modify fun s => (s.unread.head?, s)
  -- a peer that speaks in the clear; its bytes stay buffered
  if first = some 0x13 then pure (.plaintext, [])
  else acceptEncrypted sha1 dh skey

def mseHandshakeAcceptor (dh : DhKeyPair) (skey : Bytes) : SocketM (MseResult × Bytes) :=
  tryCatch (accept sha1 dh skey) mseFailed

end

/-! ## The exchange of the handshakes

How `perform_handshake` goes on after the negotiation with our handshake `hs`. -/

/-- `close`, then `connect`: a fresh connection under the same socket object. -/
def reconnect : SocketM Unit := ⟨fun s =>
  .connect fun ok => .done (if ok then .ok () else .error .network, s)⟩

def plainHandshake (hs : Bytes) : SocketM (Option Bytes) := do
  sendRaw hs
  let buffer ← receiveRaw handshakeLen
  pure (some buffer)

def afterAccept (hs : Bytes) : MseResult × Bytes → SocketM (Option Bytes)
  | (.failed, _) => pure none
  | (.rc4, peerHs) => do
    sendRaw hs
    pure (some peerHs)
  -- the peer's handshake is taken to be still in the buffer
  | (.plaintext, _) => plainHandshake hs

def afterInitiate (hs : Bytes) : MseResult × Bytes → SocketM (Option Bytes)
  | (.failed, _) => do
    reconnect
    plainHandshake hs
  | (_, peerHs) => pure (some peerHs)

section

variable (sha1 : Bytes → Bytes) (dh : DhKeyPair) (skey hs : Bytes)

def acceptHandshake : SocketM (Option Bytes) := do
  let r ← mseHandshakeAcceptor sha1 dh skey
  afterAccept hs r

def initiateHandshake : SocketM (Option Bytes) := do
  let r ← mseHandshakeInitiator sha1 dh skey hs
  afterInitiate hs r

end

end AsyncSocket

/-! ## The plain handshake -/

def protocolString : Bytes := .ascii "BitTorrent protocol"

structure Handshake where
  infoHash : Bytes
  peerId : Bytes
  extended : Bool := false
  fastExtension : Bool := false
  deriving DecidableEq, Repr

namespace Handshake

def reserved (h : Handshake) : Bytes :=
  [0, 0, 0, 0, 0, if h.extended then 0x10 else 0, 0, if h.fastExtension then 0x05 else 0x01]

def serialize (h : Handshake) : Bytes :=
  UInt8.ofNat protocolString.length :: protocolString ++ h.reserved ++ h.infoHash ++ h.peerId

end Handshake

/-! ## `perform_handshake` -/

structure HandshakeEnv where
  sha1 : Bytes → Bytes
  dh : DhKeyPair
  infoHash : Bytes
  myId : Bytes
  mseEnabled : Bool
  inbound : Bool
  completedPieces : Nat
  numPieces : Nat
  haveBitfield : Bytes

namespace HandshakeEnv

open SocketM (raise tryCatch)
open AsyncSocket (sendMessage plainHandshake acceptHandshake initiateHandshake)

variable (E : HandshakeEnv)

def myHandshake : Bytes :=
  Handshake.serialize
    { infoHash := E.infoHash, peerId := E.myId, extended := true, fastExtension := true }

/-- The part of `perform_handshake` that gets the peer's `handshake_buffer`, or nothing when the
    negotiation of an inbound connection fails. -/
def exchangeHandshakes : SocketM (Option Bytes) :=
  if E.mseEnabled then
    if E.inbound then acceptHandshake E.sha1 E.dh E.infoHash E.myHandshake
    else initiateHandshake E.sha1 E.dh E.infoHash E.myHandshake
  else plainHandshake E.myHandshake

/-- What we tell the peer of our pieces; an empty bitfield is sent with the fast extension only. -/
def inventoryMessage (fastExtension : Bool) : Option Bytes :=
  let bitfield := bitfield.toByte ::
    (E.haveBitfield ++ List.replicate ((E.numPieces + 7) / 8) 0).take ((E.numPieces + 7) / 8)
  if fastExtension then
    if E.numPieces = 0 ∨ E.completedPieces = 0 then some [haveNone.toByte]
    else if E.completedPieces = E.numPieces then some [haveAll.toByte]
    else some bitfield
  else if 0 < E.numPieces then some bitfield
  else none

end HandshakeEnv

end P2P
