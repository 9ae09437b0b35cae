import P2P.Native.Tracker

/-!
# The clients of a tracker (`TrackerClient.hpp`)

`create_tracker_client`, the query of `http_announce_impl`, and what the clients make of a reply:
`parse_tracker_response_body`, and the branch of `UdpTrackerClient::announce` for a datagram.
-/

namespace P2P

open Decimal

structure AnnounceRequestParams where
  infoHash : Bytes
  peerId : Bytes
  event : Bytes
  port : UInt16
  uploaded : UInt64
  downloaded : UInt64
  left : UInt64
  deriving DecidableEq, Repr

def isAlnum (b : UInt8) : Bool :=
  (48 ≤ b && b ≤ 57) || (65 ≤ b && b ≤ 90) || (97 ≤ b && b ≤ 122)

def hexChar (d : UInt8) : UInt8 := if d < 10 then 48 + d else 87 + d

def urlEncodeByte (b : UInt8) : Bytes :=
  if isAlnum b || b == 45 || b == 95 || b == 46 || b == 126 then [b]
  else [37, hexChar (b >>> 4), hexChar (b &&& 15)]

def urlEncode (value : Bytes) : Bytes := value.flatMap urlEncodeByte

def announceQuery (p : AnnounceRequestParams) : Bytes :=
  .ascii "info_hash=" ++ urlEncode p.infoHash ++
    .ascii "&peer_id=" ++ urlEncode p.peerId ++
    .ascii "&port=" ++ printNat p.port.toNat ++
    .ascii "&uploaded=" ++ printNat p.uploaded.toNat ++
    .ascii "&downloaded=" ++ printNat p.downloaded.toNat ++
    .ascii "&left=" ++ printNat p.left.toNat ++
    .ascii "&compact=1" ++
    if p.event.isEmpty then [] else .ascii "&event=" ++ p.event

def announceTarget (target : Bytes) (p : AnnounceRequestParams) : Bytes :=
  target ++ .ascii "?" ++ announceQuery p

structure UrlView where
  scheme : Bytes
  host : Bytes
  /-- `port_number`, which is zero for a port without a number; none without `has_port`. -/
  port : Option UInt16
  encodedPath : Bytes
  encodedQuery : Bytes
  path_no_question : (63 : UInt8) ∉ encodedPath

inductive TrackerClient where
  | udp (host : Bytes) (port : UInt16)
  | http (host : Bytes) (port : UInt16) (target : Bytes)
  | https (host : Bytes) (port : UInt16) (target : Bytes)
  deriving DecidableEq, Repr

def TrackerClient.target? : TrackerClient → Option Bytes
  | .udp .. => none
  | .http _ _ target => some target
  | .https _ _ target => some target

/-- Without the target: clients of one host and port have the same. -/
def TrackerClient.getUrl : TrackerClient → Bytes
  | .udp host port => .ascii "udp://" ++ host ++ .ascii ":" ++ printNat port.toNat
  | .http host port _ => .ascii "http://" ++ host ++ .ascii ":" ++ printNat port.toNat
  | .https host port _ => .ascii "https://" ++ host ++ .ascii ":" ++ printNat port.toNat

/-- `target` of `create_tracker_client`. Decoding does not make a query empty. -/
def UrlView.target (uv : UrlView) : Bytes :=
  let target := if uv.encodedPath.isEmpty then .ascii "/" else uv.encodedPath
  if uv.encodedQuery.isEmpty then target else target ++ .ascii "?" ++ uv.encodedQuery

def UrlView.trackerPort (uv : UrlView) : UInt16 :=
  match uv.port with
  | some port => port
  | none =>
    if uv.scheme = .ascii "http" then 80
    else if uv.scheme = .ascii "https" then 443
    else 0

/-- `create_tracker_client`, or the text of its exception; `parseUri` is `urls::parse_uri`. -/
def createTrackerClient (parseUri : Bytes → Except Bytes UrlView) (trackerUrl : Bytes) :
    Except Bytes TrackerClient :=
  match parseUri trackerUrl with
  | .error message => .error (.ascii "Invalid tracker URL: " ++ message)
  | .ok uv =>
    let port := uv.trackerPort
    if port = 0 then .error (.ascii "Tracker URL must specify a port.")
    else if uv.scheme = .ascii "udp" then .ok (.udp uv.host port)
    else if uv.scheme = .ascii "http" then .ok (.http uv.host port uv.target)
    else if uv.scheme = .ascii "https" then .ok (.https uv.host port uv.target)
    else .error (.ascii "Unsupported tracker scheme: " ++ uv.scheme)

structure TrackerAnnounceResult where
  intervalSeconds : Int32
  peers : List Bytes
  deriving DecidableEq, Repr

def AddressV4.text (ip : AddressV4) : Bytes :=
  printNat ip.b0.toNat ++ .ascii "." ++ printNat ip.b1.toNat ++ .ascii "." ++
    printNat ip.b2.toNat ++ .ascii "." ++ printNat ip.b3.toNat

def AddressV4.ofUInt (v : UInt32) : AddressV4 :=
  let b := toBe32 v
  ⟨b.getD 0 0, b.getD 1 0, b.getD 2 0, b.getD 3 0⟩

def peerText (ip : AddressV4) (port : UInt16) : Bytes :=
  ip.text ++ .ascii ":" ++ printNat port.toNat

inductive TrackerBodyError where
  | bencode (e : Bencode.BencodeError)
  | notDictionary
  deriving DecidableEq, Repr

def compactPeer (record : Bytes) : Bytes :=
  peerText ⟨record.getD 0 0, record.getD 1 0, record.getD 2 0, record.getD 3 0⟩
    (fromBe16 (record.drop 4))

/-- A peer of the list of dictionaries, unless it is skipped. -/
def listedPeer : Value → Option Bytes
  | .dict d =>
    match Assoc.find? d (.ascii "ip"), Assoc.find? d (.ascii "port") with
    | some (.str ip), some (.int port) =>
      if (58 : UInt8) ∈ ip then none
      else some (ip ++ .ascii ":" ++ printNat (UInt16.ofInt port.toInt).toNat)
    | _, _ => none
  | _ => none

/-- The peers of a reply; what is neither a string nor a list is ignored. -/
def replyPeers : Option Value → List Bytes
  | some (.str s) => (List.range (s.length / 6)).map fun i => compactPeer (s.slice (6 * i) 6)
  | some (.list l) => l.filterMap listedPeer
  | _ => []

def parseTrackerResponseBody (body : Bytes) : Except TrackerBodyError TrackerAnnounceResult :=
  match Bencode.decodePrefix body with
  | .error e => .error (.bencode e)
  | .ok (.dict d, _) =>
    .ok {
      intervalSeconds := match Assoc.find? d (.ascii "interval") with
        | some (.int interval) => interval.toInt32
        | _ => 1800
      peers := replyPeers (Assoc.find? d (.ascii "peers")) }
  | .ok _ => .error .notDictionary

def udpResponseBufferSize : Nat := 2048

def udpPeer (record : Bytes) : Bytes :=
  peerText (.ofUInt (fromBe32 (record.take 4))) (fromBe16 (record.drop 4))

/-- `announce` with a datagram after a request with `transactionId`; `none` when it tries again. -/
def udpAnnounceResult (transactionId : UInt32) (datagram : Bytes) :
    Option TrackerAnnounceResult :=
  let received := datagram.take udpResponseBufferSize
  if received.length < 20 then none
  else if fromBe32 (received.slice 4 4) = transactionId && fromBe32 (received.take 4) = 1 then
    some {
      intervalSeconds := (fromBe32 (received.slice 8 4)).toInt32
      peers := (List.range ((received.length - 20) / 6)).map fun i =>
        udpPeer (received.slice (20 + 6 * i) 6) }
  else none

end P2P
