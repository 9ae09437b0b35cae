import P2P.ForStd.Leases
import P2P.Native.RouteTable
import P2P.Native.TorrentFile
import P2P.Native.TrackerClient

/-!
# The DHT node as a server (`Kademlia.hpp`, `Utils.hpp`)

`on_get_peers_query` and `on_announce_peer_query` with tokens, stored peers and replies, and the
part of `cleanup_loop` about stored peers. `dataHash` is `Crypto::calculate_data_hash`.
-/

namespace P2P

/-! ## Messages -/

def krpcResponse (transactionId : Bytes) (r : Dict) : Value :=
  dictOf [(.ascii "t", .str transactionId), (.ascii "y", .str (.ascii "r")), (.ascii "r", dictOf r)]

def createPingResponse (transactionId : Bytes) (responderId : NodeId) : Value :=
  krpcResponse transactionId [(.ascii "id", .str responderId.val)]

def createGetPeersResponseWithPeers (transactionId : Bytes) (responderId : NodeId) (token : Bytes)
    (compactPeersList : List Value) : Value :=
  krpcResponse transactionId
    [(.ascii "id", .str responderId.val), (.ascii "token", .str token),
      (.ascii "values", .list compactPeersList)]

def createGetPeersResponseWithNodes (transactionId : Bytes) (responderId : NodeId) (token : Bytes)
    (compactNodes : Bytes) : Value :=
  krpcResponse transactionId
    [(.ascii "id", .str responderId.val), (.ascii "token", .str token),
      (.ascii "nodes", .str compactNodes)]

def createAnnouncePeerResponse (transactionId : Bytes) (responderId : NodeId) : Value :=
  createPingResponse transactionId responderId

def createErrorResponse (transactionId : Bytes) (errorCode : Int64) (errorMessage : String) :
    Value :=
  dictOf [(.ascii "t", .str transactionId), (.ascii "y", .str (.ascii "e")),
    (.ascii "e", .list [.int errorCode, .str (.ascii errorMessage)])]

def Endpoint.compact (e : Endpoint) : Bytes := (compactPeerAddr e.address e.port).val

def toCompactPeerList (peers : List Endpoint) : List Value := peers.map fun e => .str e.compact

def toCompactNodeInfo (nodes : List BucketEntry) : Bytes :=
  nodes.flatMap fun node => node.id.val ++ node.endpoint.compact

/-! ## Tokens -/

def minutes (n : Int) : Int := n * (60 * 10 ^ 9)

def announceTokenLifetime : Int := 10

/-- `time_window` of `generate_token`; the divisions round towards zero. -/
def timeWindow (now : Int) : UInt64 :=
  .ofInt ((now.tdiv (minutes 1)).tdiv announceTokenLifetime)

def tokenInput (remote : Endpoint) (now : Int) : Bytes :=
  remote.address.text ++
    (.ascii "DHT-TOKEN-SECRET-" ++ Decimal.printNat (timeWindow now).toNat)

section Hash

variable (dataHash : Bytes → Bytes)

def shortHash (input : Bytes) : Bytes := (dataHash input).take 8

def generateToken (remote : Endpoint) (now : Int) : Bytes :=
  shortHash dataHash (tokenInput remote now)

end Hash

/-! ## Stored peers -/

structure PeerInfo where
  endpoint : Endpoint
  expiry : Int
  deriving DecidableEq, Repr

def peerStorageLifetime : Int := minutes 30

structure DhtNode where
  myNodeId : NodeId
  routingTable : RouteTable
  knownPeers : OrdMap NodeId (List PeerInfo) := OrdMap.empty
  now : Int

namespace DhtNode

def new (id : NodeId) (now : Int) : DhtNode :=
  { myNodeId := id, routingTable := .new id now, now := now }

def stored (n : DhtNode) (infoHash : NodeId) : List PeerInfo :=
  (n.knownPeers.get? infoHash).getD []

def peersForHash (n : DhtNode) (infoHash : NodeId) : List Endpoint :=
  (Leases.current PeerInfo.expiry (n.stored infoHash) n.now).map PeerInfo.endpoint

def storePeer (n : DhtNode) (infoHash : NodeId) (peer : Endpoint) : DhtNode :=
  let peers :=
    Leases.renew PeerInfo.endpoint (n.stored infoHash) ⟨peer, n.now + peerStorageLifetime⟩
  { n with knownPeers := n.knownPeers.insert infoHash peers }

def cleanup (n : DhtNode) : DhtNode :=
  { n with knownPeers := n.knownPeers.filterMap fun _ peers =>
      let peers := Leases.current PeerInfo.expiry peers n.now
      if peers.isEmpty then none else some peers }

/-! ## Queries -/

def fromString {σ : Type} (sv : Bytes) : Throwing σ NodeId :=
  if h : sv.length = 20 then pure ⟨sv, h⟩
  else throw (.runtimeError "Invalid ID length (expected 20 bytes)")

def seen (senderId : NodeId) (remote : Endpoint) (n : DhtNode) : DhtNode :=
  if senderId ≠ n.myNodeId then
    { n with routingTable := n.routingTable.insert ⟨senderId, remote, .good, n.now, n.now⟩ n.now }
  else n

def seeSender (args : Dict) (remote : Endpoint) : Throwing DhtNode Unit :=
  match Assoc.find? args (.ascii "id") with
  | none => pure ()
  | some id => do
    let senderId ← fromString (← getString id)
    modify (seen senderId remote)

variable (dataHash : Bytes → Bytes)

def getPeersResponse (n : DhtNode) (infoHash : NodeId) (transactionId : Bytes)
    (remote : Endpoint) : Value :=
  let token := generateToken dataHash remote n.now
  let peers := n.peersForHash infoHash
  if peers.isEmpty then
    createGetPeersResponseWithNodes transactionId n.myNodeId token
      (toCompactNodeInfo (n.routingTable.findClosestNodes infoHash bucketCapacity))
  else createGetPeersResponseWithPeers transactionId n.myNodeId token (toCompactPeerList peers)

def onGetPeersQuery (args : Dict) (transactionId : Bytes) (remote : Endpoint) :
    Throwing DhtNode Value := do
  seeSender args remote
  match Assoc.find? args (.ascii "info_hash") with
  | none => pure (createErrorResponse transactionId 203 "Missing info_hash argument")
  | some hash =>
    let infoHash ← fromString (← getString hash)
    let n ← get
    pure (n.getPeersResponse dataHash infoHash transactionId remote)

def announcedPort (args : Dict) (port : Int64) (remote : Endpoint) : Throwing DhtNode UInt16 :=
  match Assoc.find? args (.ascii "implied_port") with
  | none => pure port.toUInt64.toUInt16
  | some v => do
    let impliedPort ← getInteger v
    pure (if impliedPort ≠ 0 then remote.port else port.toUInt64.toUInt16)

def acceptAnnounce (infoHash : NodeId) (receivedToken : Bytes) (port : UInt16)
    (transactionId : Bytes) (remote : Endpoint) : Throwing DhtNode Value := do
  let n ← get
  if receivedToken ≠ generateToken dataHash remote n.now then
    pure (createErrorResponse transactionId 203 "Invalid or expired token")
  else do
    modify fun n => n.storePeer infoHash ⟨remote.address, port⟩
    pure (createAnnouncePeerResponse transactionId n.myNodeId)

def onAnnouncePeerQuery (args : Dict) (transactionId : Bytes) (remote : Endpoint) :
    Throwing DhtNode Value :=
  match Assoc.find? args (.ascii "id"), Assoc.find? args (.ascii "info_hash"),
    Assoc.find? args (.ascii "port"), Assoc.find? args (.ascii "token") with
  | some id, some hash, some port, some token => do
    let infoHash ← fromString (← getString hash)
    let receivedToken ← getString token
    let port ← announcedPort args (← getInteger port) remote
    let senderId ← fromString (← getString id)
    modify (seen senderId remote)
    acceptAnnounce dataHash infoHash receivedToken port transactionId remote
  | _, _, _, _ => pure (createErrorResponse transactionId 203 "Missing required arguments")

/-! ## Runs -/

inductive Step where
  | getPeers (args : Dict) (transactionId : Bytes) (remote : Endpoint)
  | announcePeer (args : Dict) (transactionId : Bytes) (remote : Endpoint)
  | cleanup
  | wait (time : Nat)

def step (n : DhtNode) : Step → Option DhtNode
  | .getPeers args transactionId remote =>
    some ((onGetPeersQuery dataHash args transactionId remote).run.run n).2
  | .announcePeer args transactionId remote =>
    some ((onAnnouncePeerQuery dataHash args transactionId remote).run.run n).2
  | .cleanup => some n.cleanup
  | .wait time => some { n with now := n.now + time }

end DhtNode

end P2P
