import P2P.Native.Connections

/-!
# The life of a connection (`PeerConnection.cpp`, `TorrentSession.cpp`)

`PeerConnection::create` starts the loops of a connection before `handle_new_connection` has
registered it, and several threads run the io_context: the loops, the critical sections and the
calls of `on_disconnect` come in any order.
-/

namespace P2P

inductive HandlerStage where
  | created
  | duplicate
  | adding
  | locking
  | finished
  deriving DecidableEq, Repr

inductive KeepAlive where
  | waiting
  | sending
  | ended
  deriving DecidableEq, Repr

structure LiveConn where
  conn : Conn
  stage : HandlerStage := .created
  running : Bool := true
  keepAlive : KeepAlive := .waiting
  /-- The calls of `on_disconnect` that have not finished. -/
  disconnects : Nat := 0
  deriving DecidableEq, Repr

inductive ConnAction where
  | containsPeer
  | closeOther
  | refuse
  | addLocked
  | messageLoopEnds
  | keepAliveDue
  | keepAliveSent
  | keepAliveAborted
  | keepAliveFails
  | onDisconnect
  deriving DecidableEq, Repr

namespace LiveConn

variable (m : PeerManager) (c : LiveConn)

/-- `on_disconnect` is called; it returns at once when the session shuts down. -/
def disconnect : LiveConn :=
  if m.shuttingDown then c else { c with disconnects := c.disconnects + 1 }

def act (myPeerId : Bytes) : ConnAction → Option (LiveConn × PeerManager)
  | .containsPeer =>
    if c.stage ≠ .created then none
    else if m.containsPeer c.conn.peerId then
      -- the connection that is dropped is not closed
      if myPeerId < c.conn.peerId then some ({ c with stage := .finished }, m.releaseHalfOpen)
      else some ({ c with stage := .duplicate }, m)
    else some ({ c with stage := .adding }, m)
  | .closeOther =>
    if c.stage ≠ .duplicate then none
    else some ({ c with stage := .adding }, match m.getConnection c.conn.peerId with
      | some other => (m.close other).removeConnection c.conn.peerId (some c.conn)
      | none => m)
  | .refuse =>
    if c.stage ≠ .adding then none
    else match m.refuse c.conn with
      | (true, m) => some ({ c with stage := .finished }, m)
      | (false, m) => some ({ c with stage := .locking }, m)
  | .addLocked =>
    if c.stage ≠ .locking then none
    else some ({ c with stage := .finished }, (m.addLocked c.conn.peerId c.conn).2)
  | .messageLoopEnds =>
    if !c.running then none
    else
      -- the timer of the keep-alive loop is cancelled
      let keepAlive := if c.keepAlive = .waiting then .ended else c.keepAlive
      some ({ c with running := false, keepAlive := keepAlive }.disconnect m, m)
  | .keepAliveDue =>
    if c.keepAlive ≠ .waiting then none else some ({ c with keepAlive := .sending }, m)
  | .keepAliveSent =>
    if c.keepAlive ≠ .sending then none else some ({ c with keepAlive := .waiting }, m)
  | .keepAliveAborted =>
    if c.keepAlive ≠ .waiting ∨ c.conn.object ∉ m.closed then none
    else some ({ c with keepAlive := .ended }, m)
  | .keepAliveFails =>
    if c.keepAlive = .ended then none
    else some ({ c with keepAlive := .ended }.disconnect m, m.close c.conn)
  | .onDisconnect =>
    if c.disconnects = 0 then none
    else some ({ c with disconnects := c.disconnects - 1 }, m.removeConnection c.conn.peerId none)

end LiveConn

structure LifeRun where
  myPeerId : Bytes
  manager : PeerManager
  conns : List LiveConn := []

inductive LifeStep where
  | handshake (peerAddr : Bytes) (peerId : Option Bytes)
  | act (k : Nat) (action : ConnAction)
  | recordBan (ip : Bytes) (banTime : Nat)
  | closeFrom (ip : Bytes)
  | stop
  | closeAll
  | transfer (object : Nat) (traffic : Traffic)
  | wait (time : Nat)
  deriving DecidableEq, Repr

def LifeRun.fresh (myPeerId : Bytes) (maxTotal maxPerIp : Nat) : LifeRun where
  myPeerId := myPeerId
  manager := { maxTotalConnections := maxTotal, maxConnectionsPerIp := maxPerIp }

namespace LifeStep

def step (r : LifeRun) : LifeStep → Option LifeRun
  | .handshake peerAddr none =>
    some { r with manager := r.manager.releaseHalfOpen.reportConnectionFailure peerAddr }
  | .handshake peerAddr (some peerId) =>
    some { r with conns := r.conns ++ [{ conn := ⟨r.conns.length, peerId, peerAddr⟩ }] }
  | .act k action =>
    match r.conns[k]? with
    | none => none
    | some c => (c.act r.manager r.myPeerId action).map fun (c, m) =>
        { r with manager := m, conns := r.conns.set k c }
  | .recordBan ip banTime => some { r with manager := r.manager.recordBan ip banTime }
  | .closeFrom ip => some { r with manager := r.manager.closeFrom ip }
  | .stop => some { r with manager := { r.manager with shuttingDown := true } }
  | .closeAll => some { r with manager := r.manager.closeAndRemoveAll }
  | .transfer object traffic =>
    some { r with
      manager := { r.manager with traffic := r.manager.traffic.insert object traffic } }
  | .wait time => some { r with manager := { r.manager with now := r.manager.now + time } }

def run : List LifeStep → LifeRun → Option LifeRun := runSteps step

end LifeStep

end P2P
