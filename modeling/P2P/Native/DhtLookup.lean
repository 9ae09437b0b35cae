import P2P.ForStd.Smallest
import P2P.Native.DhtNode

/-!
# Lookups in the DHT (`Kademlia.hpp`)

`find_nodes` and `get_peers` make at most three rounds of up to `ALPHA` queries at the same time.
-/

namespace P2P

def alpha : Nat := 3

def nodeIdAt (s : Bytes) (i : Nat) : NodeId :=
  ⟨List.ofFn fun j : Fin 20 => s.getD (i + j) 0, List.length_ofFn⟩

def endpointAt (s : Bytes) (i : Nat) : Endpoint :=
  ⟨⟨s.getD i 0, s.getD (i + 1) 0, s.getD (i + 2) 0, s.getD (i + 3) 0⟩, fromBe16 (s.drop (i + 4))⟩

def fromCompactNodeInfo (compactNodes : Bytes) (now : Int) : List BucketEntry :=
  if compactNodes.length % 26 ≠ 0 then []
  else (List.range (compactNodes.length / 26)).map fun i =>
    ⟨nodeIdAt compactNodes (26 * i), endpointAt compactNodes (26 * i + 20), .questionable, now, now⟩

def fromCompactPeerInfo (compactPeers : Bytes) : List Endpoint :=
  if compactPeers.length % 6 ≠ 0 then []
  else (List.range (compactPeers.length / 6)).map fun i => endpointAt compactPeers (6 * i)

def responseValues {σ : Type} (response : Value) : Throwing σ Dict := do
  let responseDict ← getDict response
  getDict (← dictAt responseDict "r")

def responderId {σ : Type} (rValues : Dict) : Throwing σ NodeId := do
  DhtNode.fromString (← getString (← dictAt rValues "id"))

inductive QueryEnd where
  | response (response : Value)
  | timeout
  | failed
  /-- The node has begun to shut down before the query was sent. -/
  | notSent

/-- A query of a round: the node it goes to, how it ends, and when. -/
structure QueryReply where
  node : BucketEntry
  ending : QueryEnd
  now : Int

def QueryReply.responder (q : QueryReply) (id : NodeId) : BucketEntry :=
  ⟨id, q.node.endpoint, .good, q.now, q.now⟩

structure FindRound where
  routingTable : RouteTable
  discovered : List BucketEntry := []

namespace FindRound

/-- The responder and the nodes of a response; nothing has been changed before they are read. -/
def parseResponse (response : Value) : Except Fault (NodeId × Bytes) :=
  let parse : Throwing Unit (NodeId × Bytes) := do
    let rValues ← responseValues response
    let id ← responderId rValues
    let compactNodes ← getString (← dictAt rValues "nodes")
    pure (id, compactNodes)
  (parse.run.run ()).1

def markBad (r : FindRound) (q : QueryReply) : FindRound :=
  { r with routingTable := r.routingTable.updateStatus q.node.id .bad q.now }

def query (myNodeId : NodeId) (queriedNodes : List NodeId) (r : FindRound) (q : QueryReply) :
    FindRound :=
  match q.ending with
  | .notSent => r
  | .timeout | .failed => r.markBad q
  | .response response =>
    match parseResponse response with
    | .error _ => r.markBad q
    | .ok (id, compactNodes) =>
      { routingTable := r.routingTable.insert (q.responder id) q.now
        discovered := r.discovered ++ (fromCompactNodeInfo compactNodes q.now).filter fun n =>
          n.id ≠ myNodeId ∧ n.id ∉ queriedNodes }

end FindRound

structure FindNodes where
  routingTable : RouteTable
  result : List BucketEntry
  nodesToQuery : List BucketEntry
  queriedNodes : List NodeId
  i : Nat := 0

namespace FindNodes

def start (myNodeId : NodeId) (rt : RouteTable) (targetId : NodeId) (count : Nat) : FindNodes :=
  let usable := (rt.findClosestNodes targetId count).filter fun e =>
    e.id ≠ myNodeId ∧ e.status ≠ .bad
  let result := usable.sortBy (·.distanceTo targetId)
  { routingTable := rt
    result := result
    nodesToQuery := result.take alpha
    queriedNodes := (result.take alpha).map (·.id) }

def enqueue (q : List BucketEntry × List NodeId) (node : BucketEntry) :
    List BucketEntry × List NodeId :=
  if node.id ∈ q.2 then q else (q.1 ++ [node], node.id :: q.2)

def step (myNodeId targetId : NodeId) (count : Nat) (s : FindNodes) (replies : List QueryReply) :
    Option FindNodes :=
  if s.i < 3 ∧ s.nodesToQuery ≠ [] ∧ (replies.map (·.node)).Perm s.nodesToQuery then
    let round := replies.foldl (FindRound.query myNodeId s.queriedNodes) ⟨s.routingTable, []⟩
    let result := round.discovered.foldl (List.pushNew (·.id)) s.result
    let next := round.discovered.foldl enqueue ([], s.queriedNodes)
    some
      { routingTable := round.routingTable
        result := (result.sortBy (·.distanceTo targetId)).take count
        nodesToQuery := (next.1.sortBy (·.distanceTo targetId)).take alpha
        queriedNodes := next.2
        i := s.i + 1 }
  else none

end FindNodes

structure GetRound where
  routingTable : RouteTable
  currentPeers : List Endpoint := []
  currentNodes : List BucketEntry := []

namespace GetRound

def pushPeers (value : Value) : Throwing GetRound Unit := do
  let compactPeer ← getString value
  modify fun r => { r with currentPeers := r.currentPeers ++ fromCompactPeerInfo compactPeer }

def pushFound (rValues : Dict) (now : Int) : Throwing GetRound Unit :=
  match Assoc.find? rValues (.ascii "values"), Assoc.find? rValues (.ascii "nodes") with
  | some values, _ => do
    (← getList values).forM pushPeers
  | none, some nodes => do
    let compactNodes ← getString nodes
    modify fun r =>
      { r with currentNodes := r.currentNodes ++ fromCompactNodeInfo compactNodes now }
  | none, none => pure ()

def onResponse (q : QueryReply) (response : Value) : Throwing GetRound Unit := do
  let rValues ← responseValues response
  let id ← responderId rValues
  modify fun r => { r with routingTable := r.routingTable.insert (q.responder id) q.now }
  pushFound rValues q.now
  match Assoc.find? rValues (.ascii "token") with
  | some token => discard (getString token)
  | none => pure ()

/-- A node that does not answer, or not properly. -/
def markBad (r : GetRound) (q : QueryReply) : GetRound :=
  { r with routingTable := r.routingTable.updateStatus q.node.id .bad q.now }

def query (r : GetRound) (q : QueryReply) : GetRound :=
  match q.ending with
  | .notSent => r
  | .timeout | .failed => r.markBad q
  | .response response =>
    match (onResponse q response).run.run r with
    | (.ok _, r) => r
    | (.error _, r) => r.markBad q

end GetRound

structure GetPeers where
  routingTable : RouteTable
  discovered : List Endpoint
  nodesToQuery : List BucketEntry
  queriedNodes : List NodeId := []
  i : Nat := 0

namespace GetPeers

def addStored (count : Nat) (now : Int) : List Endpoint → List PeerInfo → List Endpoint × Bool
  | discovered, [] => (discovered, false)
  | discovered, peerInfo :: rest =>
    if now < peerInfo.expiry ∧ peerInfo.endpoint ∉ discovered then
      let discovered := discovered ++ [peerInfo.endpoint]
      if count < discovered.length then (discovered, true) else addStored count now discovered rest
    else addStored count now discovered rest

/-- `get_peers` before the loop. When it returns there, no nodes are left to query. -/
def start (n : DhtNode) (infoHash : NodeId) (count : Nat) : GetPeers :=
  let stored := addStored count n.now [] (n.stored infoHash)
  { routingTable := n.routingTable
    discovered := stored.1
    nodesToQuery := if stored.2 ∨ n.routingTable.size = 0 then []
      else n.routingTable.findClosestNodes infoHash count }

def spawn (myNodeId : NodeId) (queriedNodes : List NodeId) :
    List BucketEntry → List BucketEntry × List NodeId
  | [] => ([], queriedNodes)
  | node :: rest =>
    if node.id = myNodeId ∨ node.id ∈ queriedNodes then spawn myNodeId queriedNodes rest
    else
      let spawned := spawn myNodeId (node.id :: queriedNodes) rest
      (node :: spawned.1, spawned.2)

def enqueue (queriedNodes : List NodeId) (nodesToQuery : List BucketEntry) (n : BucketEntry) :
    List BucketEntry :=
  if n.id ∈ queriedNodes then nodesToQuery else nodesToQuery.pushNew (·.id) n

def Continues (count : Nat) (s : GetPeers) : Prop :=
  s.i < 3 ∧ s.nodesToQuery ≠ [] ∧ s.discovered.length ≤ count ∧
    -- the check at the end of the round before
    (s.i ≠ 0 → s.discovered.length < count)

instance (count : Nat) (s : GetPeers) : Decidable (s.Continues count) :=
  inferInstanceAs (Decidable (_ ∧ _ ∧ _ ∧ _))

def step (myNodeId infoHash : NodeId) (count : Nat) (s : GetPeers) (replies : List QueryReply) :
    Option GetPeers :=
  let spawned := spawn myNodeId s.queriedNodes (s.nodesToQuery.take alpha)
  if s.Continues count ∧ (replies.map (·.node)).Perm spawned.1 then
    let round := replies.foldl GetRound.query { routingTable := s.routingTable }
    let next := round.currentNodes.foldl (enqueue spawned.2) []
    some
      { routingTable := round.routingTable
        discovered := round.currentPeers.foldl (List.pushNew id) s.discovered
        nodesToQuery := (next.sortBy (·.distanceTo infoHash)).take alpha
        queriedNodes := spawned.2
        i := s.i + 1 }
  else none

end GetPeers

end P2P
