import P2P.ForStd.Decimal
import P2P.Native.PeerManager

/-!
# Making and losing connections (`TorrentSession.cpp`, `PeerManager.cpp`)

An outgoing connection waits for a half-open slot, resolves, connects and shakes hands; an incoming
one shakes hands only.
-/

namespace P2P

namespace PeerManager

variable (m : PeerManager)

/-- `handle_new_connection` after the handshake: is the connection registered? -/
def handleNewConnection (myPeerId : Bytes) (conn : Conn) : Bool × PeerManager :=
  match m.getConnection conn.peerId with
  | none => m.addConnection conn.peerId conn
  | some other =>
    if myPeerId < conn.peerId then (false, m.releaseHalfOpen)
    else ((m.close other).removeConnection conn.peerId (some conn)).addConnection conn.peerId conn

def onDisconnect (conn : Conn) : PeerManager :=
  if m.shuttingDown then m.close conn
  else (m.close conn).removeConnection conn.peerId none

end PeerManager

/-- `std::stoi`; `none` when it throws. -/
def stoi (text : Bytes) : Option Int :=
  let (negative, digits) := Decimal.signedDigits Decimal.isDigit text
  let value : Int := if negative then -(Decimal.digitsVal digits) else Decimal.digitsVal digits
  if digits.isEmpty || value < -2 ^ 31 || value ≥ 2 ^ 31 then none else some value

/-- Whether `connect_to_peer` can take an address apart: a number follows the first colon. -/
def addrWellFormed (peerAddr : Bytes) : Bool :=
  match peerAddr.dropWhile (· ≠ 58) with
  | [] => false
  | _ :: port => (stoi port).isSome

inductive ConnectTask where
  | waiting (peerAddr : Bytes)
  /-- `connect_to_peer` has found a free slot and has not taken it yet. -/
  | acquiring (peerAddr : Bytes)
  | resolving (peerAddr : Bytes)
  | connecting (peerAddr : Bytes)
  | handshaking (peerAddr : Bytes) (inbound : Bool)
  | unchoking (inbound : Bool)
  deriving DecidableEq, Repr

structure ConnectRun where
  myPeerId : Bytes
  manager : PeerManager
  conns : List Conn := []
  tasks : List ConnectTask := []

inductive ConnectStep where
  /-- `connect_to_peer` is called; `skipped`: the fail cache or a backoff is against it. -/
  | connectToPeer (peerAddr : Bytes) (skipped : Bool)
  | slotTest (i : Nat)
  | acquireSlot (i : Nat)
  | resolved (i : Nat) (success : Bool)
  | connected (i : Nat) (success : Bool)
  | accepted (peerAddr : Bytes)
  /-- `PeerConnection::create` has ended: the id that the peer has sent, if it went well. -/
  | handshake (i : Nat) (peerId : Option Bytes)
  | unchokeSent (i : Nat)
  | onDisconnect (object : Nat)
  | banPeerByIp (ip : Bytes)
  | stop
  /-- All connections are closed: in `stop`, and when the download is complete. -/
  | closeAll
  | transfer (object : Nat) (traffic : Traffic)
  | wait (time : Nat)

namespace ConnectRun

def start (myPeerId : Bytes) (manager : PeerManager) : ConnectRun where
  myPeerId := myPeerId
  manager := manager

def fresh (myPeerId : Bytes) (maxTotal maxPerIp maxHalfOpen : Nat) : ConnectRun :=
  start myPeerId {
    maxTotalConnections := maxTotal
    maxConnectionsPerIp := maxPerIp
    maxHalfOpenConnections := maxHalfOpen }

variable (r : ConnectRun)

def resume (i : Nat) (m : PeerManager) (next : Option ConnectTask) : ConnectRun :=
  { r with
    manager := m
    tasks := match next with
      | some task => r.tasks.set i task
      | none => r.tasks.eraseIdx i }

def acquire (m : PeerManager) : PeerManager :=
  { m with halfOpenConnections := m.halfOpenConnections + 1 }

def addPeer (i : Nat) (peerAddr : Bytes) (inbound : Bool) (peerId : Bytes) : ConnectRun :=
  let conn : Conn := ⟨r.conns.length, peerId, peerAddr⟩
  let r := { r with conns := r.conns ++ [conn] }
  match r.manager.handleNewConnection r.myPeerId conn with
  | (false, m) => r.resume i m none
  | (true, m) =>
    r.resume i m (if m.connectionCount ≤ unchokeSlots then some (.unchoking inbound) else none)

end ConnectRun

namespace ConnectStep

open ConnectRun

def step (r : ConnectRun) : ConnectStep → Option ConnectRun
  | .connectToPeer peerAddr skipped =>
    if r.manager.shuttingDown || skipped then some r
    else match r.manager.isBanned (extractIpFromAddr peerAddr) with
      | (true, m) => some { r with manager := m }
      | (false, m) =>
        if m.maxHalfOpenConnections = 0 then some { r with manager := m }
        else some { r with manager := m, tasks := r.tasks ++ [.waiting peerAddr] }
  | .slotTest i =>
    match r.tasks[i]? with
    | some (.waiting peerAddr) =>
      if r.manager.halfOpenConnections ≥ r.manager.maxHalfOpenConnections then
        if r.manager.shuttingDown then some (r.resume i r.manager none) else some r
      else some (r.resume i r.manager (some (.acquiring peerAddr)))
    | _ => none
  | .acquireSlot i =>
    match r.tasks[i]? with
    | some (.acquiring peerAddr) =>
      let m := acquire r.manager
      if addrWellFormed peerAddr then some (r.resume i m (some (.resolving peerAddr)))
      else some (r.resume i (m.releaseHalfOpen.reportConnectionFailure peerAddr) none)
    | _ => none
  | .resolved i success =>
    match r.tasks[i]? with
    | some (.resolving peerAddr) =>
      if !success || r.manager.shuttingDown then some (r.resume i r.manager.releaseHalfOpen none)
      else some (r.resume i r.manager (some (.connecting peerAddr)))
    | _ => none
  | .connected i success =>
    match r.tasks[i]? with
    | some (.connecting peerAddr) =>
      if r.manager.shuttingDown then some (r.resume i r.manager.releaseHalfOpen none)
      else if !success then
        some (r.resume i (r.manager.releaseHalfOpen.reportConnectionFailure peerAddr) none)
      else some (r.resume i r.manager (some (.handshaking peerAddr false)))
    | _ => none
  | .accepted peerAddr => some { r with tasks := r.tasks ++ [.handshaking peerAddr true] }
  | .handshake i peerId =>
    match r.tasks[i]? with
    | some (.handshaking peerAddr inbound) =>
      match peerId with
      | none =>
        some (r.resume i (r.manager.releaseHalfOpen.reportConnectionFailure peerAddr) none)
      | some peerId =>
        -- a connection to ourselves is dropped by the handshake
        if peerId = r.myPeerId then
          some (r.resume i (r.manager.releaseHalfOpen.reportConnectionFailure peerAddr) none)
        else some (r.addPeer i peerAddr inbound peerId)
    | _ => none
  | .unchokeSent i =>
    match r.tasks[i]? with
    | some (.unchoking _) => some (r.resume i r.manager none)
    | _ => none
  | .onDisconnect object =>
    (r.conns[object]?).map fun conn => { r with manager := r.manager.onDisconnect conn }
  | .banPeerByIp ip => some { r with manager := r.manager.banPeerByIp ip }
  | .stop => some { r with manager := { r.manager with shuttingDown := true } }
  | .closeAll => some { r with manager := r.manager.closeAndRemoveAll }
  | .transfer object traffic =>
    some { r with
      manager := { r.manager with traffic := r.manager.traffic.insert object traffic } }
  | .wait time => some { r with manager := { r.manager with now := r.manager.now + time } }

def run : List ConnectStep → ConnectRun → Option ConnectRun := runSteps step

end ConnectStep

end P2P
