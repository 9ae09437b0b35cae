import P2P.ForStd.BitString
import P2P.Native.Tracker

/-!
# The routing table of the DHT (`Kademlia.hpp`)

The known nodes in 160 buckets by their distance to the own id, each with the node seen last at its
back.
-/

namespace P2P

abbrev NodeId := { b : Bytes // b.length = 20 }

instance NodeId.lawfulBEq : LawfulBEq NodeId := inferInstance

/-- `udp::endpoint`; the sockets of the DHT are IPv4. -/
structure Endpoint where
  address : AddressV4
  port : UInt16
  deriving DecidableEq, Repr

inductive NodeStatus where
  | good
  | questionable
  | bad
  deriving DecidableEq, Repr

structure BucketEntry where
  id : NodeId
  endpoint : Endpoint
  status : NodeStatus
  lastSeen : Int
  lastReplied : Int
  deriving DecidableEq, Repr

def bucketCapacity : Nat := 8

def distance (node1 node2 : NodeId) : Bytes := List.zipWith (· ^^^ ·) node1.val node2.val

def BucketEntry.distanceTo (target : NodeId) (e : BucketEntry) : Bytes := distance e.id target

def bucketIndexFrom (i : Nat) : Bytes → Nat
  | [] => 20 * 8 - 1
  | d :: rest => if d ≠ 0 then i * 8 + BitString.leadingZeros d else bucketIndexFrom (i + 1) rest

def getBucketIndex (myId otherId : NodeId) : Nat := bucketIndexFrom 0 (distance myId otherId)

structure KBucket where
  bucket : List BucketEntry := []
  lastChanged : Int
  deriving DecidableEq, Repr

namespace KBucket

/-- `KBucket::add`; the result says whether there was a place for the entry. -/
def add (b : KBucket) (entry : BucketEntry) (now : Int) : KBucket × Bool :=
  match b.bucket.find? (·.id = entry.id) with
  | some e =>
    -- the node is known: the fields are updated and it is moved to the back
    let e := { e with
      endpoint := entry.endpoint
      status := entry.status
      lastSeen := now
      lastReplied := entry.lastReplied }
    (⟨b.bucket.eraseP (·.id = entry.id) ++ [e], now⟩, true)
  | none =>
    if b.bucket.length < bucketCapacity then (⟨b.bucket ++ [entry], now⟩, true)
    else
      match b.bucket.find? (·.status = .bad) with
      | some _ =>
        -- the first bad node makes room
        (⟨b.bucket.eraseP (·.status = .bad) ++ [entry], now⟩, true)
      | none => (b, false)

def updateStatus (b : KBucket) (id : NodeId) (status : NodeStatus) (now : Int) : KBucket :=
  match b.bucket.find? (·.id = id) with
  | none => b
  | some e =>
    if status = .good then
      ⟨b.bucket.eraseP (·.id = id) ++ [{ e with status := status, lastReplied := now }], now⟩
    else
      ⟨b.bucket.replaceF fun e => if e.id = id then some { e with status := status } else none,
        now⟩

end KBucket

structure RouteTable where
  myNodeId : NodeId
  buckets : Vector KBucket 160

namespace RouteTable

def new (id : NodeId) (now : Int) : RouteTable := ⟨id, Vector.replicate 160 { lastChanged := now }⟩

def modify (rt : RouteTable) (idx : Nat) (f : KBucket → KBucket) : RouteTable :=
  if h : idx < 160 then { rt with buckets := rt.buckets.set idx (f rt.buckets[idx]) } else rt

def insert (rt : RouteTable) (entry : BucketEntry) (now : Int) : RouteTable :=
  if entry.id = rt.myNodeId then rt
  else rt.modify (getBucketIndex rt.myNodeId entry.id) fun b => (b.add entry now).1

def updateStatus (rt : RouteTable) (id : NodeId) (status : NodeStatus) (now : Int) : RouteTable :=
  if rt.myNodeId = id then rt
  else rt.modify (getBucketIndex rt.myNodeId id) fun b => b.updateStatus id status now

def size (rt : RouteTable) : Nat := (rt.buckets.toList.map (·.bucket.length)).sum

def allEntries (rt : RouteTable) : List BucketEntry := rt.buckets.toList.flatMap (·.bucket)

def bucketAt (rt : RouteTable) (idx : Nat) : List BucketEntry :=
  if h : idx < 160 then rt.buckets[idx].bucket else []

/-- The loop of `find_closest_nodes` over a bucket; `added_ids` has the ids in `closest`. -/
def addClosest (rt : RouteTable) (closest bucket : List BucketEntry) : List BucketEntry :=
  bucket.foldl (fun closest e =>
    if e.id ≠ rt.myNodeId ∧ e.id ∉ closest.map (·.id) then closest ++ [e] else closest) closest

def expandClosest (rt : RouteTable) (targetIdx k : Nat) :
    List Nat → List BucketEntry → List BucketEntry
  | [], closest => closest
  | i :: rest, closest =>
    let closest := if i ≤ targetIdx then rt.addClosest closest (rt.bucketAt (targetIdx - i))
      else closest
    let closest := if targetIdx + i < 160 then rt.addClosest closest (rt.bucketAt (targetIdx + i))
      else closest
    if k ≤ closest.length ∧ targetIdx < i ∧ 160 ≤ targetIdx + i then closest
    else expandClosest rt targetIdx k rest closest

def findClosestNodes (rt : RouteTable) (target : NodeId) (k : Nat) : List BucketEntry :=
  let targetIdx := getBucketIndex rt.myNodeId target
  let closest := rt.addClosest [] (rt.bucketAt targetIdx)
  let closest := rt.expandClosest targetIdx k (List.range' 1 159) closest
  (closest.mergeSort fun a b => ¬ distance b.id target < distance a.id target).take k

inductive Step where
  | insert (entry : BucketEntry) (now : Int)
  | updateStatus (id : NodeId) (status : NodeStatus) (now : Int)

def step (rt : RouteTable) : Step → Option RouteTable
  | .insert entry now => some (rt.insert entry now)
  | .updateStatus id status now => some (rt.updateStatus id status now)

end RouteTable

end P2P
