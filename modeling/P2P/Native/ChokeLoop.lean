import P2P.Native.PeerManager

/-!
# The choke loop (`PeerManager::choke_loop`)

Of the interested peers a pass chokes those that have stopped sending data, gives eleven slots to
the fastest of the others, and a twelfth to a random peer that is remembered for three passes.
-/

namespace P2P

structure PeerFlags where
  amChoking : Bool := true
  peerIsInterested : Bool := false
  /-- `last_data_received_`, which starts as the default time point. -/
  lastDataReceived : Option Nat := none
  deriving DecidableEq, Repr

structure ChokeLoop where
  registry : Registry
  flags : Nat → PeerFlags := fun _ => {}
  optimistic : Option Conn := none
  counter : Nat := 0

def snubTime : Nat := 60 * 1000000000

namespace ChokeLoop

variable (s : ChokeLoop)

def allPeers : List Conn := s.registry.manager.activeConnections.entries.map (·.2)

def amChoking (conn : Conn) : Bool := (s.flags conn.object).amChoking

def peerIsInterested (conn : Conn) : Bool := (s.flags conn.object).peerIsInterested

def snubbing (conn : Conn) : Bool :=
  match (s.flags conn.object).lastDataReceived with
  | none => false
  | some time => s.registry.manager.now - time > snubTime

def setFlags (object : Nat) (f : PeerFlags → PeerFlags) : ChokeLoop :=
  { s with flags := Function.update s.flags object (f (s.flags object)) }

def setChoking (conn : Conn) (val : Bool) : ChokeLoop :=
  s.setFlags conn.object fun f => { f with amChoking := val }

def collect : ChokeLoop → List Conn → ChokeLoop × List Conn
  | s, [] => (s, [])
  | s, conn :: rest =>
    if !s.peerIsInterested conn then collect s rest
    else if !s.amChoking conn && s.snubbing conn then collect (s.setChoking conn true) rest
    else
      let r := collect s rest
      (r.1, conn :: r.2)

def regular : Nat → List Conn → List Conn
  | 0, _ => []
  | _, [] => []
  | slots + 1, conn :: rest =>
    if s.snubbing conn then regular (slots + 1) rest else conn :: regular slots rest

def hasPeer (conns : List Conn) (conn : Conn) : Bool := conns.any (·.peerId = conn.peerId)

/-- On a third pass the previous optimistic peer is choked unless it has a regular slot. -/
def chokePrevious (toUnchoke : List Conn) : ChokeLoop :=
  match s.optimistic with
  | none => s
  | some prev =>
    if !hasPeer toUnchoke prev && !s.amChoking prev then s.setChoking prev true else s

/-- The peers that can be picked: choked ones that do not snub us. -/
def candidates (interested : List Conn) : List Conn :=
  interested.filter fun p => !s.snubbing p && s.amChoking p

def rotate (interested toUnchoke : List Conn) (pick : Nat) : ChokeLoop × List Conn :=
  let s := s.chokePrevious toUnchoke
  let candidates := s.candidates interested
  match candidates[pick % candidates.length]? with
  | none => (s, toUnchoke)
  | some conn => ({ s with optimistic := some conn }, toUnchoke ++ [conn])

def keep (interested toUnchoke : List Conn) : ChokeLoop × List Conn :=
  match s.optimistic with
  | none => (s, toUnchoke)
  | some prev =>
    if hasPeer interested prev then (s, toUnchoke ++ [prev])
    else ({ s with optimistic := none }, toUnchoke)

def applySlots (toUnchoke : List Conn) : ChokeLoop → List Conn → ChokeLoop
  | s, [] => s
  | s, conn :: rest =>
    let shouldUnchoke := hasPeer toUnchoke conn
    if shouldUnchoke && s.amChoking conn then
      applySlots toUnchoke (s.setChoking conn false) rest
    else if !shouldUnchoke && !s.amChoking conn then
      applySlots toUnchoke (s.setChoking conn true) rest
    else applySlots toUnchoke s rest

def resetTraffic (conns : List Conn) : ChokeLoop :=
  { s with registry := { s.registry with manager := { s.registry.manager with
      traffic := conns.foldl (fun traffic conn => traffic.insert conn.object {})
        s.registry.manager.traffic } } }

def sortKey (isSeed : Bool) (conn : Conn) : UInt64 :=
  let traffic := (s.registry.manager.traffic.get? conn.object).getD {}
  if isSeed then traffic.bytesUploaded else traffic.bytesDownloaded

def SortedOf (isSeed : Bool) (interested sorted : List Conn) : Prop :=
  sorted.Perm interested ∧ sorted.Pairwise fun a b => s.sortKey isSeed b ≤ s.sortKey isSeed a

instance SortedOf.decidable (isSeed : Bool) (interested sorted : List Conn) :
    Decidable (s.SortedOf isSeed interested sorted) :=
  inferInstanceAs (Decidable (_ ∧ _))

def slots (sorted : List Conn) (pick : Nat) : ChokeLoop × List Conn :=
  let toUnchoke := s.regular (unchokeSlots - 1) sorted
  if s.counter % 3 = 0 then s.rotate sorted toUnchoke pick else s.keep sorted toUnchoke

def pass (isSeed : Bool) (sorted : List Conn) (pick : Nat) : Option ChokeLoop :=
  let s := { s with counter := s.counter + 1 }
  let (s, interested) := collect s s.allPeers
  if interested = [] then some s
  else if s.SortedOf isSeed interested sorted then
    let (s, toUnchoke) := s.slots sorted pick
    let s := applySlots toUnchoke s sorted
    some (s.resetTraffic s.allPeers)
  else none

/-- The end of `handle_new_connection`: unchoked while there are no more connections than slots. -/
def fastStart (conn : Conn) : ChokeLoop :=
  if s.registry.manager.connectionCount ≤ unchokeSlots && s.amChoking conn then
    s.setChoking conn false
  else s

def connect (peerId peerAddr : Bytes) (traffic : Traffic) : ChokeLoop :=
  let conn := s.registry.newConn peerId peerAddr
  let (added, registry) := s.registry.add peerId peerAddr traffic
  let s := { s with registry }
  if added then s.fastStart conn else s

def onBlockRequest (object : Nat) : ChokeLoop :=
  s.setFlags object fun f =>
    if !f.amChoking && !f.peerIsInterested then { f with peerIsInterested := true } else f

end ChokeLoop

/-- A pass, or what happens between two passes. Messages are those of a connection object. -/
inductive ChokeStep where
  | call (call : ManagerCall)
  | interested (object : Nat)
  | notInterested (object : Nat)
  | request (object : Nat)
  | block (object : Nat)
  | pass (isSeed : Bool) (sorted : List Conn) (pick : Nat)

namespace ChokeLoop

def start (maxTotal maxPerIp : Nat) : ChokeLoop := { registry := .start maxTotal maxPerIp }

def onMessage (s : ChokeLoop) (object : Nat) (f : ChokeLoop → ChokeLoop) : Option ChokeLoop :=
  if object < s.registry.objects then some (f s) else none

def step (s : ChokeLoop) : ChokeStep → Option ChokeLoop
  | .call (.addConnection peerId peerAddr traffic) => some (s.connect peerId peerAddr traffic)
  | .call call => some { s with registry := s.registry.step call }
  | .interested object =>
    s.onMessage object (·.setFlags object fun f => { f with peerIsInterested := true })
  | .notInterested object =>
    s.onMessage object (·.setFlags object fun f => { f with peerIsInterested := false })
  | .request object => s.onMessage object (·.onBlockRequest object)
  | .block object =>
    s.onMessage object (·.setFlags object fun f =>
      { f with lastDataReceived := some s.registry.manager.now })
  | .pass isSeed sorted pick => s.pass isSeed sorted pick

end ChokeLoop

end P2P
