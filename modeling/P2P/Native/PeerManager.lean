import P2P.ForStd.Bytes
import P2P.ForStd.OrdMap
import P2P.ForStd.Run

/-!
# The peer manager (`PeerManager.cpp`)

The connections of a session, with limits on all and on those from one address, and bans.
-/

namespace P2P

structure Conn where
  object : Nat
  peerId : Bytes
  peerAddr : Bytes
  deriving DecidableEq, Repr

structure Traffic where
  bytesDownloaded : UInt64 := 0
  bytesUploaded : UInt64 := 0
  deriving DecidableEq, Repr

structure BannedPeer where
  banTime : Nat
  expiryTime : Nat
  deriving DecidableEq, Repr

structure PeerMisbehavior where
  corruptPieces : UInt32 := 0
  protocolViolations : UInt32 := 0
  timeouts : UInt32 := 0
  connectionFailures : UInt32 := 0
  deriving DecidableEq, Repr

def PeerMisbehavior.hasExceededThresholds (m : PeerMisbehavior) : Bool :=
  m.corruptPieces ≥ 3 || m.protocolViolations ≥ 5 || m.timeouts ≥ 10 ||
    m.connectionFailures ≥ 10

structure PeerManager where
  maxTotalConnections : Nat := 500
  maxConnectionsPerIp : Nat := 4
  maxHalfOpenConnections : Nat := 500
  halfOpenConnections : Nat := 0
  activeConnections : OrdMap Bytes Conn := OrdMap.empty
  bannedPeers : OrdMap Bytes BannedPeer := OrdMap.empty
  peerMisbehavior : OrdMap Bytes PeerMisbehavior := OrdMap.empty
  shuttingDown : Bool := false
  traffic : OrdMap Nat Traffic := OrdMap.empty
  closed : List Nat := []
  now : Nat := 0

def unchokeSlots : Nat := 12

def banDuration : Nat := 3600 * 1000000000

/-- `PeerManager::extract_ip_from_addr`: what stands before the last colon. -/
def extractIpFromAddr (peerAddr : Bytes) : Bytes :=
  match peerAddr.reverse.dropWhile (· ≠ 58) with
  | [] => peerAddr
  | _ :: ip => ip.reverse

def Conn.ip (conn : Conn) : Bytes := extractIpFromAddr conn.peerAddr

namespace PeerManager

variable (m : PeerManager)

/-! ## Single members -/

def close (conn : Conn) : PeerManager := { m with closed := conn.object :: m.closed }

def containsPeer (id : Bytes) : Bool := m.activeConnections.contains id

def getConnection (id : Bytes) : Option Conn := m.activeConnections.get? id

def connectionCount : Nat := m.activeConnections.entries.length

/-- `release_half_open`, which `add_connection` and `connect_to_peer` also do by hand. -/
def releaseHalfOpen : PeerManager :=
  if m.halfOpenConnections > 0 then { m with halfOpenConnections := m.halfOpenConnections - 1 }
  else m

/-- `remove_connection`. Without a connection the entry is erased whatever it refers to. -/
def removeConnection (id : Bytes) (conn : Option Conn) : PeerManager :=
  match conn with
  | none => { m with activeConnections := m.activeConnections.erase id }
  | some conn =>
    if (m.activeConnections.get? id).map (·.object) = some conn.object then
      { m with activeConnections := m.activeConnections.erase id }
    else m

def closeAndRemoveAll : PeerManager :=
  { m with
    closed := m.activeConnections.entries.map (·.2.object) ++ m.closed
    activeConnections := OrdMap.empty }

/-- The traffic of a connection in the current round: a sum of two `uint64_t`. -/
def rate (conn : Conn) : UInt64 :=
  let t := (m.traffic.get? conn.object).getD {}
  t.bytesDownloaded + t.bytesUploaded

def worstOf : List (Bytes × Conn) → UInt64 → Option Conn → Option Conn
  | [], _, worst => worst
  | (_, conn) :: rest, minRate, worst =>
    if m.rate conn < minRate then worstOf rest (m.rate conn) (some conn)
    else worstOf rest minRate worst

/-- `find_worst_peer_locked`. The loop starts with the largest `uint64_t`. -/
def findWorstPeer : Option Conn :=
  m.worstOf m.activeConnections.entries 0xFFFFFFFFFFFFFFFF none

def countFrom (ip : Bytes) : Nat := m.activeConnections.entries.countP fun e => e.2.ip = ip

/-! ## Bans -/

def isBanned (ip : Bytes) : Bool × PeerManager :=
  match m.bannedPeers.get? ip with
  | none => (false, m)
  | some ban =>
    if m.now ≥ ban.expiryTime then (false, { m with bannedPeers := m.bannedPeers.erase ip })
    else (true, m)

/-- The first critical section of `ban_peer_by_ip`; the call began at `banTime`. -/
def recordBan (ip : Bytes) (banTime : Nat) : PeerManager :=
  { m with
    bannedPeers := m.bannedPeers.insert ip ⟨banTime, banTime + banDuration⟩
    peerMisbehavior := m.peerMisbehavior.erase ip }

def closeFrom (ip : Bytes) : PeerManager :=
  let toRemove := m.activeConnections.entries.filter fun e => e.2.ip = ip
  { m with
    closed := toRemove.map (·.2.object) ++ m.closed
    activeConnections := toRemove.foldl (fun conns e => conns.erase e.1) m.activeConnections }

def banPeerByIp (ip : Bytes) : PeerManager := (m.recordBan ip m.now).closeFrom ip

def banCleanup : PeerManager :=
  { m with
    bannedPeers := (m.bannedPeers.entries.filter fun e => m.now ≥ e.2.expiryTime).foldl
      (fun bans e => bans.erase e.1) m.bannedPeers }

/-- The `report_` functions: a counter of the address goes up, and too much of it is a ban. -/
def reportMisbehavior (count : PeerMisbehavior → PeerMisbehavior) (peerAddr : Bytes) :
    PeerManager :=
  let ip := extractIpFromAddr peerAddr
  let misbehavior := count ((m.peerMisbehavior.get? ip).getD {})
  let m := { m with peerMisbehavior := m.peerMisbehavior.insert ip misbehavior }
  if misbehavior.hasExceededThresholds then m.banPeerByIp ip else m

def reportCorruptPiece (peerAddr : Bytes) : PeerManager :=
  m.reportMisbehavior (fun c => { c with corruptPieces := c.corruptPieces + 1 }) peerAddr

def reportProtocolViolation (peerAddr : Bytes) : PeerManager :=
  m.reportMisbehavior (fun c => { c with protocolViolations := c.protocolViolations + 1 }) peerAddr

def reportTimeout (peerAddr : Bytes) : PeerManager :=
  m.reportMisbehavior (fun c => { c with timeouts := c.timeouts + 1 }) peerAddr

def reportConnectionFailure (peerAddr : Bytes) : PeerManager :=
  m.reportMisbehavior (fun c => { c with connectionFailures := c.connectionFailures + 1 }) peerAddr

/-! ## `PeerManager::add_connection` -/

/-- The part before `mutex_` is taken: is the connection refused at once? -/
def refuse (conn : Conn) : Bool × PeerManager :=
  match m.isBanned conn.ip with
  | (true, m) => (true, m.close conn)
  | (false, m) => if m.shuttingDown then (true, m.close conn) else (false, m)

/-- The end of `add_connection`: a connection under the same id is closed and replaced. -/
def register (id : Bytes) (conn : Conn) : PeerManager :=
  let m := match m.activeConnections.get? id with
    | some existing => m.close existing
    | none => m
  { m with activeConnections := m.activeConnections.insert id conn }

/-- The part after the ban has been checked again: the limits. -/
def checkLimits (id : Bytes) (conn : Conn) : Bool × PeerManager :=
  if m.countFrom conn.ip ≥ m.maxConnectionsPerIp then (false, m.close conn)
  else if m.connectionCount ≥ m.maxTotalConnections then
    match m.findWorstPeer with
    | none =>
      -- every connection has the largest rate
      (false, m.close conn)
    | some worst =>
      let m := m.close worst
      (true, { m with
        activeConnections := m.activeConnections.erase worst.peerId }.register id conn)
  else (true, m.register id conn)

def addLocked (id : Bytes) (conn : Conn) : Bool × PeerManager :=
  -- whether the connection is an outgoing one is not known here
  match m.releaseHalfOpen.isBanned conn.ip with
  | (true, m) => (false, m.close conn)
  | (false, m) => m.checkLimits id conn

def addConnection (id : Bytes) (conn : Conn) : Bool × PeerManager :=
  match m.refuse conn with
  | (true, m) => (false, m)
  | (false, m) => m.addLocked id conn

end PeerManager

/-! ## Calls, one after the other -/

structure Registry where
  manager : PeerManager
  objects : Nat := 0

def Registry.start (maxTotal maxPerIp : Nat) : Registry where
  manager := { maxTotalConnections := maxTotal, maxConnectionsPerIp := maxPerIp }

inductive ManagerCall where
  | addConnection (peerId peerAddr : Bytes) (traffic : Traffic)
  | removeConnection (id : Bytes) (conn : Option Conn)
  | banPeerByIp (ip : Bytes)
  | transfer (object : Nat) (traffic : Traffic)
  | wait (time : Nat)
  | cancel

namespace Registry

def newConn (r : Registry) (peerId peerAddr : Bytes) : Conn := ⟨r.objects, peerId, peerAddr⟩

/-- `make_shared<PeerConnection>`, with the counters the object has when it is added. -/
def allocate (r : Registry) (traffic : Traffic) : PeerManager :=
  { r.manager with traffic := r.manager.traffic.insert r.objects traffic }

def add (r : Registry) (peerId peerAddr : Bytes) (traffic : Traffic) : Bool × Registry :=
  let (added, manager) := (r.allocate traffic).addConnection peerId (r.newConn peerId peerAddr)
  (added, ⟨manager, r.objects + 1⟩)

def step (r : Registry) : ManagerCall → Registry
  | .addConnection peerId peerAddr traffic => (r.add peerId peerAddr traffic).2
  | .removeConnection id conn => { r with manager := r.manager.removeConnection id conn }
  | .banPeerByIp ip => { r with manager := r.manager.banPeerByIp ip }
  | .transfer object traffic =>
    { r with manager := { r.manager with traffic := r.manager.traffic.insert object traffic } }
  | .wait time => { r with manager := { r.manager with now := r.manager.now + time } }
  | .cancel => { r with manager := { r.manager with shuttingDown := true } }

def run (r : Registry) (calls : List ManagerCall) : Registry := calls.foldl step r

end Registry

/-! ## Concurrent calls -/

inductive ManagerTask where
  | adding (id : Bytes) (conn : Conn)
  | banning (ip : Bytes) (banTime : Nat)
  | closing (ip : Bytes)
  deriving DecidableEq, Repr

structure ManagerRun where
  manager : PeerManager
  tasks : List ManagerTask := []
  bans : List (Bytes × Nat) := []

inductive ManagerStep where
  | addConnection (id : Bytes) (conn : Conn)
  | addLocked (i : Nat)
  | banPeerByIp (ip : Bytes)
  | recordBan (i : Nat)
  /-- The second critical section of `ban_peer_by_ip`, after which it returns. -/
  | closeFrom (i : Nat)
  | removeConnection (id : Bytes) (conn : Option Conn)
  | banCleanup
  | transfer (object : Nat) (traffic : Traffic)
  | wait (time : Nat)
  | cancel

namespace ManagerStep

def step (r : ManagerRun) : ManagerStep → Option ManagerRun
  | .addConnection id conn =>
    match r.manager.refuse conn with
    | (true, m) => some { r with manager := m }
    | (false, m) => some { r with manager := m, tasks := r.tasks ++ [.adding id conn] }
  | .addLocked i =>
    match r.tasks[i]? with
    | some (.adding id conn) =>
      some { r with
        manager := (r.manager.addLocked id conn).2
        tasks := r.tasks.eraseIdx i }
    | _ => none
  | .banPeerByIp ip => some { r with tasks := r.tasks ++ [.banning ip r.manager.now] }
  | .recordBan i =>
    match r.tasks[i]? with
    | some (.banning ip banTime) =>
      some {
        manager := r.manager.recordBan ip banTime
        tasks := r.tasks.eraseIdx i ++ [.closing ip]
        bans := (ip, banTime + banDuration) :: r.bans }
    | _ => none
  | .closeFrom i =>
    match r.tasks[i]? with
    | some (.closing ip) =>
      some { r with manager := r.manager.closeFrom ip, tasks := r.tasks.eraseIdx i }
    | _ => none
  | .removeConnection id conn =>
    some { r with manager := r.manager.removeConnection id conn }
  | .banCleanup => some { r with manager := r.manager.banCleanup }
  | .transfer object traffic =>
    some { r with
      manager := { r.manager with traffic := r.manager.traffic.insert object traffic } }
  | .wait time => some { r with manager := { r.manager with now := r.manager.now + time } }
  | .cancel => some { r with manager := { r.manager with shuttingDown := true } }

def run : List ManagerStep → ManagerRun → Option ManagerRun := runSteps step

end ManagerStep

end P2P
