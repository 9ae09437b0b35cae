import P2P.ForStd.NestedMap
import P2P.ForStd.Slice
import P2P.Native.Connections
import P2P.Native.Handshake

/-!
# The tracker (`Tracker.hpp`, `HttpServer.hpp`)

What `Tracker` does with one request: the announce handler behind `HttpRouter`,
`handle_udp_request`, and the pass of `cleanup_loop` over the registry.
-/

namespace P2P

/-! ## Addresses and words -/

structure AddressV4 where
  b0 : UInt8
  b1 : UInt8
  b2 : UInt8
  b3 : UInt8
  deriving DecidableEq, Repr

abbrev CompactAddr := { b : Bytes // b.length = 6 }

def compactPeerAddr (ip : AddressV4) (port : UInt16) : CompactAddr :=
  ⟨[ip.b0, ip.b1, ip.b2, ip.b3] ++ toBe16 port, rfl⟩

def toBe64 (v : UInt64) : Bytes := toBe32 (v >>> 32).toUInt32 ++ toBe32 v.toUInt32

def fromBe64 (b : Bytes) : UInt64 :=
  ((fromBe32 (b.take 4)).toUInt64 <<< 32) ||| (fromBe32 (b.drop 4)).toUInt64

/-! ## The query of a request -/

def hexDigit? (b : UInt8) : Option UInt8 :=
  if 48 ≤ b && b ≤ 57 then some (b - 48)
  else if 97 ≤ b && b ≤ 102 then some (b - 87)
  else if 65 ≤ b && b ≤ 70 then some (b - 55)
  else none

/-- `hex_stream >> std::hex >> value` for a text of two characters, converted to `char`. -/
def readHex (text : Bytes) : UInt8 :=
  let (negative, digits) := Decimal.signedDigits (fun b => (hexDigit? b).isSome) text
  let value := digits.foldl (fun n b => 16 * n + (hexDigit? b).getD 0) 0
  if negative then -value else value

def urlDecode : Bytes → Bytes
  | c :: a :: b :: rest =>
    if c = 37 then readHex [a, b] :: urlDecode rest
    else (if c = 43 then 32 else c) :: urlDecode (a :: b :: rest)
  -- a percent sign with fewer than two characters behind it stands for itself
  | c :: rest => (if c = 43 then 32 else c) :: urlDecode rest
  | [] => []

def addQueryParam (params : OrdMap Bytes Bytes) (pair : Bytes) : OrdMap Bytes Bytes :=
  match pair.dropWhile (· ≠ 61) with
  | [] => params
  | _ :: value =>
    let key := pair.takeWhile (· ≠ 61)
    if key.isEmpty then params else params.insert key value

def parseQueryParams (query : Bytes) : OrdMap Bytes Bytes :=
  (query.splitOn 38).foldl addQueryParam .empty

/-- `std::stoll`; `none` when it throws. -/
def stoll (text : Bytes) : Option Int64 :=
  let (negative, digits) := Decimal.signedDigits Decimal.isDigit text
  let value : Int := if negative then -(Decimal.digitsVal digits) else Decimal.digitsVal digits
  if digits.isEmpty || value < -2 ^ 63 || value ≥ 2 ^ 63 then none else some (Int64.ofInt value)

inductive AnnounceError where
  | missing
  | port
  | left
  deriving DecidableEq, Repr

def AnnounceError.what : AnnounceError → Bytes
  | .missing => .ascii "map::at"
  | .port => .ascii "stoi"
  | .left => .ascii "stoll"

structure AnnounceParams where
  infoHash : Bytes
  port : UInt16
  left : Int64
  event : Bytes
  deriving DecidableEq, Repr

def paramAt (params : OrdMap Bytes Bytes) (key : Bytes) : Except AnnounceError Bytes :=
  (params.get? key).elim (.error .missing) .ok

def announceParams (target : Bytes) : Except AnnounceError AnnounceParams := do
  let params := parseQueryParams ((target.dropWhile (· ≠ 63)).drop 1)
  let infoHash ← paramAt params (.ascii "info_hash")
  let portText ← paramAt params (.ascii "port")
  let port ← (stoi portText).elim (.error .port) .ok
  let left ← match params.get? (.ascii "left") with
    | none => .ok 0
    | some text => (stoll text).elim (.error .left) .ok
  return {
    infoHash := urlDecode infoHash
    port := UInt16.ofInt port
    left := left
    event := (params.get? (.ascii "event")).getD [] }

/-! ## The registry and the replies -/

structure PeerEntry where
  left : Int64
  lastAnnounce : Int
  deriving DecidableEq, Repr

structure UdpClientInfo where
  connectionId : UInt64
  expiry : Int
  deriving DecidableEq, Repr

structure Tracker where
  peers : NestedMap Bytes CompactAddr PeerEntry := .empty
  interval : Int32 := 1800
  udpClients : OrdMap CompactAddr UdpClientInfo := .empty
  now : Int

structure AnnounceReply where
  complete : Int32 := 0
  incomplete : Int32 := 0
  peers : Bytes := []
  deriving DecidableEq, Repr

def collectPeer (self : CompactAddr) (r : AnnounceReply) (e : CompactAddr × PeerEntry) :
    AnnounceReply :=
  let r := if e.2.left = 0 then { r with complete := r.complete + 1 }
    else { r with incomplete := r.incomplete + 1 }
  if e.1 ≠ self then { r with peers := r.peers ++ e.1.val } else r

def collectPeers (peerMap : OrdMap CompactAddr PeerEntry) (self : CompactAddr) : AnnounceReply :=
  peerMap.entries.foldl (collectPeer self) {}

structure HttpResponse where
  status : Nat
  body : Bytes
  deriving DecidableEq, Repr

def announceBody (interval : Int32) (reply : AnnounceReply) : Bytes :=
  Bencode.encode (.dict (
    [(Bytes.ascii "interval", Value.int interval.toInt64),
      (.ascii "complete", .int reply.complete.toInt64),
      (.ascii "incomplete", .int reply.incomplete.toInt64),
      (.ascii "peers", .str reply.peers)].foldl (fun d e => Assoc.insert d e.1 e.2) []))

def failureBody (e : AnnounceError) : Bytes :=
  Bencode.encode (.dict [(.ascii "failure reason", .str e.what)])

def udpAnnounceResponse (transactionId : UInt32) (interval : Int32) (reply : AnnounceReply) :
    Bytes :=
  toBe32 1 ++ toBe32 transactionId ++ toBe32 interval.toUInt32 ++
    toBe32 reply.incomplete.toUInt32 ++ toBe32 reply.complete.toUInt32 ++ reply.peers

/-- What `async_send_to` sends: it throws when UDP cannot carry so much, and the handler catches. -/
def sendTo (datagram : Bytes) : Option Bytes :=
  if datagram.length ≤ 65507 then some datagram else none

namespace Tracker

variable (t : Tracker)

def register (infoHash : Bytes) (addr : CompactAddr) (left : Int64) : Tracker :=
  { t with peers := t.peers.put infoHash addr ⟨left, t.now⟩ }

/-! ## HTTP -/

def handleAnnounce (ip : AddressV4) (target : Bytes) : HttpResponse × Tracker :=
  match announceParams target with
  | .error e => (⟨400, failureBody e⟩, t)
  | .ok p =>
    let addr := compactPeerAddr ip p.port
    if p.event = .ascii "stopped" then
      (⟨200, announceBody t.interval {}⟩, { t with peers := t.peers.remove p.infoHash addr })
    else
      let t := t.register p.infoHash addr p.left
      (⟨200, announceBody t.interval (collectPeers (t.peers.row p.infoHash) addr)⟩, t)

def targetPath (target : Bytes) : Bytes := target.takeWhile (· ≠ 63)

def routed (target : Bytes) : Bool :=
  targetPath target == .ascii "/announce" || targetPath target == .ascii "/"

def handleRequest (ip : AddressV4) (target : Bytes) : HttpResponse × Tracker :=
  if routed target then t.handleAnnounce ip target
  else
    (⟨404, .ascii "The resource '" ++ target ++ .ascii "' was not found."⟩, t)

/-! ## UDP -/

structure UdpAnnounceRequest where
  connectionId : UInt64
  transactionId : UInt32
  infoHash : Bytes
  left : UInt64
  event : UInt32
  port : UInt16
  deriving DecidableEq, Repr

def UdpAnnounceRequest.ofBytes (request : Bytes) : UdpAnnounceRequest where
  connectionId := fromBe64 (request.slice 0 8)
  transactionId := fromBe32 (request.slice 12 4)
  infoHash := request.slice 16 20
  left := fromBe64 (request.slice 64 8)
  event := fromBe32 (request.slice 80 4)
  port := fromBe16 (request.slice 96 2)

def udpAction (request : Bytes) : UInt32 := fromBe32 (request.slice 8 4)

def connectionIdLifetime : Int := 120000000000

/-- The connect branch of `handle_udp_request`; the generator returns `connectionId`. -/
def udpConnect (endpoint : CompactAddr) (request : Bytes) (connectionId : UInt64) :
    Bytes × Tracker :=
  (toBe32 0 ++ request.slice 12 4 ++ toBe64 connectionId,
    { t with
      udpClients := t.udpClients.insert endpoint ⟨connectionId, t.now + connectionIdLifetime⟩ })

/-- Whether the connection id of an announce is the one of its endpoint, and not expired. -/
def udpClientValid (endpoint : CompactAddr) (connectionId : UInt64) : Bool :=
  match t.udpClients.get? endpoint with
  | none => false
  | some client => client.connectionId == connectionId && !(client.expiry < t.now)

/-- The announce branch up to the `dispatch`: the request, unless it is ignored. -/
def udpAccept (endpoint : CompactAddr) (request : Bytes) : Option UdpAnnounceRequest :=
  if request.length < 98 then none
  else
    let req := UdpAnnounceRequest.ofBytes request
    if t.udpClientValid endpoint req.connectionId then some req else none

/-- The branch for an announce, from the `dispatch` on. The event is not looked at. -/
def udpAnnounce (ip : AddressV4) (req : UdpAnnounceRequest) : Bytes × Tracker :=
  let addr := compactPeerAddr ip req.port
  let t := t.register req.infoHash addr req.left.toInt64
  (udpAnnounceResponse req.transactionId t.interval (collectPeers (t.peers.row req.infoHash) addr),
    t)

def handleUdpRequest (ip : AddressV4) (port : UInt16) (request : Bytes) (connectionId : UInt64) :
    Option Bytes × Tracker :=
  let endpoint := compactPeerAddr ip port
  if request.length < 16 then (none, t)
  else if udpAction request = 0 then
    let (response, t) := t.udpConnect endpoint request connectionId
    (some response, t)
  else if udpAction request = 1 then
    match t.udpAccept endpoint request with
    | none => (none, t)
    | some req =>
      let (response, t) := t.udpAnnounce ip req
      (sendTo response, t)
  else (none, t)

/-! ## Cleanup -/

def cleanup : Tracker :=
  let threshold := t.now - (t.interval * 2).toInt * 1000000000
  { t with peers := t.peers.prune fun e => e.lastAnnounce < threshold }

/-! ## Runs -/

inductive Step where
  | http (ip : AddressV4) (target : Bytes)
  /-- A datagram; `connectionId` is what the generator returns if it is a connect. -/
  | udp (ip : AddressV4) (port : UInt16) (request : Bytes) (connectionId : UInt64)
  | cleanup
  | wait (time : Nat)

inductive Response where
  | http (response : HttpResponse)
  | udp (datagram : Bytes)
  deriving DecidableEq, Repr

def handle : Step → Option Response × Tracker
  | .http ip target =>
    let (response, t) := t.handleRequest ip target
    (some (.http response), t)
  | .udp ip port request connectionId =>
    let (response, t) := t.handleUdpRequest ip port request connectionId
    (response.map .udp, t)
  | .cleanup => (none, t.cleanup)
  | .wait time => (none, { t with now := t.now + time })

def step (t : Tracker) (e : Step) : Option Tracker := some (t.handle e).2

def respond (e : Step) : Option Response := (t.handle e).1

end Tracker

end P2P
