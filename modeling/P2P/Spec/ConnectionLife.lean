import P2P.Native.ConnectionLife
import P2P.Spec.PeerManager

/-!
# Connections are registered or closed

Once `handle_new_connection` and the calls of `on_disconnect` are over, a connection should be
registered with a running message loop, or have a closed socket.
-/

namespace P2P

open PeerManager LiveConn List Option OrdMap

namespace PeerManager

variable {m m' : PeerManager} {own : Option Conn}

/-- What is registered was so before, and what is so no more has been closed; only `own` may be
    added under the id of its peer, or removed as it is. -/
structure Tidied (own : Option Conn) (m m' : PeerManager) : Prop where
  closed : ∀ k ∈ m.closed, k ∈ m'.closed
  old : ∀ id c, m'.activeConnections.get? id = some c →
    (own = some c ∧ id = c.peerId) ∨ m.activeConnections.get? id = some c
  kept : ∀ id c, own ≠ some c → m.activeConnections.get? id = some c →
    m'.activeConnections.get? id = some c ∨ c.object ∈ m'.closed

theorem Tidied.of_same (hactive : m'.activeConnections = m.activeConnections)
    (hclosed : ∀ k ∈ m.closed, k ∈ m'.closed) : Tidied own m m' := by
  constructor <;> grind

theorem Tidied.trans {m₁ : PeerManager} (h : Tidied own m m₁) (h' : Tidied own m₁ m') :
    Tidied own m m' := by
  obtain ⟨hclosed, hold, hkept⟩ := h
  obtain ⟨hclosed', hold', hkept'⟩ := h'
  constructor <;> grind

theorem tidied_close (m : PeerManager) (conn : Conn) : Tidied own m (m.close conn) :=
  .of_same rfl fun _ hk => mem_cons_of_mem _ hk

theorem tidied_erase {id : Bytes} (hfound : ∀ c, m.activeConnections.get? id = some c →
    own = some c ∨ c.object ∈ m.closed) :
    Tidied own m { m with activeConnections := m.activeConnections.erase id } := by
  constructor <;> grind [get?_erase]

theorem tidied_closeFrom (m : PeerManager) (ip : Bytes) : Tidied own m (m.closeFrom ip) where
  closed k hk := mem_append_right _ hk
  old id c hc := by
    rw [get?_closeFrom] at hc
    exact .inr (filter_eq_some_iff.mp hc).1
  kept id c _ hc := by
    rw [get?_closeFrom, hc, filter_some]
    by_cases hip : c.ip = ip
    · right
      have hmem : (id, c) ∈ m.activeConnections.entries := (mem_entries _).mpr hc
      apply mem_append_left
      exact mem_map_of_mem (mem_filter.mpr ⟨hmem, by simpa using hip⟩)
    · simp [hip]

theorem tidied_reportConnectionFailure (m : PeerManager) (peerAddr : Bytes) :
    Tidied own m (m.releaseHalfOpen.reportConnectionFailure peerAddr) := by
  unfold reportConnectionFailure reportMisbehavior
  rw [releaseHalfOpen_eq]
  dsimp only
  split
  · have h : Tidied own m (m.closeFrom (extractIpFromAddr peerAddr)) := tidied_closeFrom ..
    exact ⟨h.closed, h.old, h.kept⟩
  · exact .of_same rfl fun _ hk => hk

theorem tidied_closeAndRemoveAll (m : PeerManager) : Tidied own m m.closeAndRemoveAll where
  closed k hk := mem_append_right _ hk
  old id c hc := by simp [closeAndRemoveAll] at hc
  kept id c _ hc :=
    .inr (mem_append_left _ (mem_map_of_mem ((mem_entries _).mpr hc)))

theorem refuse_closed (m : PeerManager) (conn : Conn) :
    (m.refuse conn).2.activeConnections = m.activeConnections ∧
      (∀ k ∈ m.closed, k ∈ (m.refuse conn).2.closed) ∧
      ((m.refuse conn).1 = true → conn.object ∈ (m.refuse conn).2.closed) := by
  unfold refuse
  split
  · next m₁ heq =>
    obtain ⟨bans, rfl⟩ := isBanned_inv heq
    simp +contextual [close]
  · next m₁ heq =>
    obtain ⟨bans, rfl⟩ := isBanned_inv heq
    split <;> simp +contextual [close]

structure Settled (m : PeerManager) (conn : Conn) (m' : PeerManager) : Prop
    extends Tidied (some conn) m m' where
  fate : m'.activeConnections.get? conn.peerId = some conn ∨ conn.object ∈ m'.closed

theorem settled_close (m : PeerManager) (conn : Conn) : Settled m conn (m.close conn) :=
  ⟨tidied_close m conn, .inr mem_cons_self⟩

theorem settled_register (m : PeerManager) (conn : Conn) :
    Settled m conn (m.register conn.peerId conn) := by
  constructor
  · constructor <;> grind [register, close, get?_insert]
  · grind [register, get?_insert]

section

variable (hkeyed : ∀ id c, m.activeConnections.get? id = some c → c.peerId = id) (conn : Conn)

include hkeyed conn

theorem settled_checkLimits : Settled m conn (m.checkLimits conn.peerId conn).2 := by
  unfold checkLimits
  split
  · exact settled_close m conn
  · split
    · split
      · exact settled_close m conn
      · -- the connection that makes room stands under the id of its peer
        next worst hworst =>
        obtain ⟨idw, hgetw⟩ := findWorstPeer_mem hworst
        have hid := hkeyed idw worst hgetw
        have hclose : Tidied (some conn) m (m.close worst) := tidied_close m worst
        have herase : Tidied (some conn) (m.close worst) { m.close worst with
            activeConnections := m.activeConnections.erase worst.peerId } :=
          tidied_erase (m := m.close worst) (by grind [close])
        have hadd := settled_register { m.close worst with
          activeConnections := m.activeConnections.erase worst.peerId } conn
        exact ⟨(hclose.trans herase).trans hadd.toTidied, hadd.fate⟩
    · exact settled_register m conn

theorem settled_addLocked : Settled m conn (m.addLocked conn.peerId conn).2 := by
  unfold addLocked
  rw [releaseHalfOpen_eq]
  split
  · next m₁ heq =>
    obtain ⟨bans, rfl⟩ := isBanned_inv heq
    have h := settled_close { m with
      halfOpenConnections := m.halfOpenConnections - 1, bannedPeers := bans } conn
    exact ⟨⟨h.closed, h.old, h.kept⟩, h.fate⟩
  · next m₁ heq =>
    obtain ⟨bans, rfl⟩ := isBanned_inv heq
    have h := settled_checkLimits (m := { m with
      halfOpenConnections := m.halfOpenConnections - 1, bannedPeers := bans }) hkeyed conn
    exact ⟨⟨h.closed, h.old, h.kept⟩, h.fate⟩

end

end PeerManager

namespace LifeRun

/-- The socket is closed, or it is closed with the object as soon as nothing refers to it. -/
def Released (m : PeerManager) (c : LiveConn) : Prop :=
  c.conn.object ∈ m.closed ∨ (c.running = false ∧ c.keepAlive = .ended)

structure Object (m : PeerManager) (k : Nat) (c : LiveConn) : Prop where
  object : c.conn.object = k
  handled : c.stage ≠ .finished → c.running = true
  finished : c.stage = .finished →
    m.activeConnections.get? c.conn.peerId = some c.conn ∨ Released m c
  disconnecting : 0 < c.disconnects → Released m c

/-- What is registered has a message loop that runs or a call of `on_disconnect` to come, and what
    is not registered in the end is released. -/
structure Managed (r : LifeRun) : Prop where
  entry : ∀ id conn, r.manager.activeConnections.get? id = some conn →
    conn.peerId = id ∧ ∃ c : LiveConn, r.conns[conn.object]? = some c ∧ c.conn = conn ∧
      c.stage = .finished ∧ (c.running = true ∨ 0 < c.disconnects)
  objects : ∀ (k : Nat) (c : LiveConn), r.conns[k]? = some c → Object r.manager k c

variable {r r' : LifeRun} {m m' : PeerManager} {own : Option Conn} {c c' : LiveConn} {k : Nat}

theorem Released.tidied (h : Released m c) (hm : m.Tidied own m') : Released m' c :=
  h.imp_left (hm.closed _)

theorem Object.tidied (h : Object m k c) (hm : m.Tidied own m') (hother : own ≠ some c.conn) :
    Object m' k c where
  object := h.object
  handled := h.handled
  finished hstage := by
    rcases h.finished hstage with hregistered | hreleased
    · exact (hm.kept _ _ hother hregistered).imp_right .inl
    · exact .inr (hreleased.tidied hm)
  disconnecting hpos := (h.disconnecting hpos).tidied hm

theorem Managed.tidied (h : r.Managed) (hm : r.manager.Tidied none m) :
    Managed { r with manager := m } where
  entry id conn hget := by
    rcases hm.old id conn hget with hnew | hold
    · exact nomatch hnew.1
    · exact h.entry id conn hold
  objects k c hc := (h.objects k c hc).tidied hm nofun

theorem Managed.set (h : r.Managed) (hk : r.conns[k]? = some c)
    (hm : r.manager.Tidied (some c.conn) m) (hconn : c'.conn = c.conn)
    (hentry : m.activeConnections.get? c.conn.peerId = some c.conn →
      c'.stage = .finished ∧ (c'.running = true ∨ 0 < c'.disconnects))
    (hobject : Object m k c') : Managed { r with manager := m, conns := r.conns.set k c' } := by
  have hlt : k < r.conns.length := (List.getElem?_eq_some_iff.mp hk).1
  have hown : c.conn.object = k := (h.objects k c hk).object
  constructor
  · intro id conn hget
    have hid : conn.peerId = id := by
      rcases hm.old id conn hget with hnew | hold
      · exact hnew.2.symm
      · exact (h.entry id conn hold).1
    refine ⟨hid, ?_⟩
    by_cases hnew : conn = c.conn
    · subst hnew hid
      have hlive := hentry hget
      exact ⟨c', by grind⟩
    · rcases hm.old id conn hget with hadded | hold
      · grind
      · obtain ⟨-, d, hd, rfl, hlive⟩ := h.entry id conn hold
        have hother : d.conn.object ≠ k := by grind
        exact ⟨d, by grind⟩
  · intro j d hd
    by_cases hj : j = k
    · grind
    · have hold := h.objects j d (by grind)
      apply hold.tidied hm
      intro heq
      exact hj (by rw [← hold.object, ← some.inj heq, hown])

theorem Managed.registered (h : r.Managed) (hk : r.conns[k]? = some c) {id : Bytes} {conn : Conn}
    (hget : r.manager.activeConnections.get? id = some conn) (hobject : conn.object = k) :
    c.conn = conn ∧ c.stage = .finished ∧ (c.running = true ∨ 0 < c.disconnects) := by
  obtain ⟨-, d, hd, hlive⟩ := h.entry id conn hget
  rw [hobject, hk] at hd
  exact some.inj hd ▸ hlive

end LifeRun

/-- A connection is not dropped as a duplicate; its message loop ends after `handle_new_connection`,
    and neither while a keep-alive is sent over an open socket nor, in a shutdown, while it is
    registered; `on_disconnect` finds the connection itself, a closed one or none under the id. -/
def LifeStep.Orderly (r : LifeRun) : LifeStep → Prop
  | .act k .containsPeer =>
    ∀ c ∈ r.conns[k]?, r.manager.containsPeer c.conn.peerId = true → ¬ r.myPeerId < c.conn.peerId
  | .act k .messageLoopEnds =>
    ∀ c ∈ r.conns[k]?, c.stage = .finished ∧
      (c.keepAlive = .sending → c.conn.object ∈ r.manager.closed) ∧
      (r.manager.shuttingDown = true → r.manager.getConnection c.conn.peerId ≠ some c.conn)
  | .act k .onDisconnect =>
    ∀ c ∈ r.conns[k]?, ∀ other ∈ r.manager.getConnection c.conn.peerId,
      other = c.conn ∨ other.object ∈ r.manager.closed
  | _ => True

instance LifeStep.Orderly.decidable (r : LifeRun) : ∀ st, Decidable (LifeStep.Orderly r st) := by
  intro st
  unfold LifeStep.Orderly
  split <;> infer_instance

namespace LifeRun

variable {r r' : LifeRun} {m : PeerManager} {c c' : LiveConn} {k : Nat} {action : ConnAction}

theorem Managed.act (h : r.Managed) (hk : r.conns[k]? = some c)
    (hok : LifeStep.Orderly r (.act k action))
    (hact : c.act r.manager r.myPeerId action = some (c', m)) :
    Managed { r with manager := m, conns := r.conns.set k c' } := by
  obtain ⟨hobject, hhandled, hfinished, hdisconnecting⟩ := h.objects k c hk
  have hown : r.manager.activeConnections.get? c.conn.peerId = some c.conn →
      c.stage = .finished ∧ (c.running = true ∨ 0 < c.disconnects) :=
    fun hget => (h.registered hk hget hobject).2
  have hsame : r.manager.Tidied (some c.conn) r.manager := .of_same rfl fun _ hj => hj
  cases action with
  | containsPeer =>
    have hkeep := hok c hk
    refine h.set hk ?_ ?_ ?_ ⟨?_, ?_, ?_, ?_⟩ <;> grind [act, Released]
  | closeOther =>
    -- the connection is not registered yet, so `remove_connection` finds nothing to remove
    have hremove : c.stage ≠ .finished → ∀ other,
        (r.manager.close other).removeConnection c.conn.peerId (some c.conn) =
          r.manager.close other := by
      intro hstage other
      refine if_neg fun heq => ?_
      obtain ⟨conn, hget, hsame⟩ := map_eq_some_iff.mp heq
      exact hstage (h.registered hk hget (hsame.trans hobject)).2.1
    have hclose : ∀ other, r.manager.Tidied (some c.conn) (r.manager.close other) :=
      tidied_close r.manager
    refine h.set hk ?_ ?_ ?_ ⟨?_, ?_, ?_, ?_⟩ <;>
      grind [act, Released, close]
  | refuse =>
    obtain ⟨hactive, hclosed, hfate⟩ := r.manager.refuse_closed c.conn
    have hm : r.manager.Tidied (some c.conn) (r.manager.refuse c.conn).2 := .of_same hactive hclosed
    refine h.set hk ?_ ?_ ?_ ⟨?_, ?_, ?_, ?_⟩ <;> grind [act, Released]
  | addLocked =>
    obtain ⟨hm, hfate⟩ := settled_addLocked
      (fun id conn hget => (h.entry id conn hget).1) c.conn
    have hclosed := hm.closed
    refine h.set hk ?_ ?_ ?_ ⟨?_, ?_, ?_, ?_⟩ <;> grind [act, Released]
  | messageLoopEnds =>
    obtain ⟨hstage, hsending, hdown⟩ := hok c hk
    unfold getConnection at hdown
    have hloop : c.keepAlive = .waiting ∨ c.keepAlive = .sending ∨ c.keepAlive = .ended := by
      cases c.keepAlive <;> simp
    refine h.set hk ?_ ?_ ?_ ⟨?_, ?_, ?_, ?_⟩ <;>
      grind [act, disconnect, Released]
  | keepAliveDue | keepAliveSent | keepAliveAborted =>
    refine h.set hk ?_ ?_ ?_ ⟨?_, ?_, ?_, ?_⟩ <;>
      grind [act, disconnect, Released]
  | keepAliveFails =>
    have hm : r.manager.Tidied (some c.conn) (r.manager.close c.conn) :=
      tidied_close ..
    have hclosed : c.conn.object ∈ (r.manager.close c.conn).closed := mem_cons_self
    refine h.set hk ?_ ?_ ?_ ⟨?_, ?_, ?_, ?_⟩ <;>
      grind [act, disconnect, Released, close]
  | onDisconnect =>
    have hfound := hok c hk
    have hm : r.manager.Tidied (some c.conn) (r.manager.removeConnection c.conn.peerId none) :=
      tidied_erase fun other hget => (hfound other hget).imp_left fun heq => by rw [heq]
    refine h.set hk ?_ ?_ ?_ ⟨?_, ?_, ?_, ?_⟩ <;>
      grind [act, Released, removeConnection, get?_erase]

theorem Managed.step {st : LifeStep} (h : r.Managed) (hok : st.Orderly r)
    (hstep : LifeStep.step r st = some r') : r'.Managed := by
  cases st with
  | handshake peerAddr peerId =>
    cases peerId with
    | none =>
      cases hstep
      exact h.tidied (tidied_reportConnectionFailure ..)
    | some peerId =>
      cases hstep
      constructor
      · intro id conn hget
        obtain ⟨hid, c, hc, hrest⟩ := h.entry id conn hget
        exact ⟨hid, c, by grind, hrest⟩
      · intro k c hc
        by_cases hlt : k < r.conns.length
        · exact h.objects k c (by grind)
        · obtain ⟨rfl, rfl⟩ : k = r.conns.length ∧
              c = { conn := ⟨r.conns.length, peerId, peerAddr⟩ } := by
            grind
          exact ⟨rfl, fun _ => rfl, nofun, nofun⟩
  | act k action =>
    simp only [LifeStep.step] at hstep
    split at hstep
    · cases hstep
    · next c hk =>
      obtain ⟨⟨c', m⟩, hact, rfl⟩ := map_eq_some_iff.mp hstep
      exact h.act hk hok hact
  | closeFrom ip =>
    cases hstep
    exact h.tidied (tidied_closeFrom ..)
  | closeAll =>
    cases hstep
    exact h.tidied (tidied_closeAndRemoveAll _)
  | recordBan | stop | transfer | wait =>
    cases hstep
    exact h.tidied (.of_same rfl fun _ hj => hj)

/-- The socket has been closed, or destroyed with the object, to which nothing refers. -/
def SocketClosed (r : LifeRun) (c : LiveConn) : Prop :=
  c.conn.object ∈ r.manager.closed ∨
    (c.stage = .finished ∧ c.running = false ∧ c.keepAlive = .ended ∧ c.disconnects = 0 ∧
      ∀ id, r.manager.getConnection id ≠ some c.conn)

end LifeRun

/-- Once `handle_new_connection` and every `on_disconnect` of a connection have finished, it is
    registered with a running message loop, or its socket is closed. -/
theorem no_unmanaged_connections (myPeerId : Bytes) (maxTotal maxPerIp : Nat)
    (steps : List LifeStep)
    (hok : StepsMeet LifeStep.step LifeStep.Orderly steps (.fresh myPeerId maxTotal maxPerIp))
    (r : LifeRun) (hrun : LifeStep.run steps (.fresh myPeerId maxTotal maxPerIp) = some r)
    (k : Nat) (c : LiveConn) (hk : r.conns[k]? = some c) (hfinished : c.stage = .finished)
    (hdone : c.disconnects = 0) :
    (r.manager.getConnection c.conn.peerId = some c.conn ∧ c.running = true) ∨
      ((∀ id, r.manager.getConnection id ≠ some c.conn) ∧ r.SocketClosed c) := by
  have hstart : (LifeRun.fresh myPeerId maxTotal maxPerIp).Managed := ⟨nofun, nofun⟩
  have h := runSteps_invariant (fun _ _ _ hok hstep h => h.step hok hstep) hok hrun hstart
  have hobject := h.objects k c hk
  by_cases hget : r.manager.getConnection c.conn.peerId = some c.conn
  · have hlive := (h.registered hk hget hobject.object).2.2
    exact .inl ⟨hget, hlive.resolve_right (by omega)⟩
  · have hgone : ∀ id, r.manager.getConnection id ≠ some c.conn := by
      intro id hid
      exact hget ((h.entry id c.conn hid).1 ▸ hid)
    rcases hobject.finished hfinished with hin | hclosed | hended
    · exact absurd hin hget
    · exact .inr ⟨hgone, .inl hclosed⟩
    · exact .inr ⟨hgone, .inr ⟨hfinished, hended.1, hended.2, hdone, hgone⟩⟩

def handleSteps (k : Nat) : List LifeStep :=
  [.act k .containsPeer, .act k .refuse, .act k .addLocked]

theorem no_unmanaged_connections_lost :
    ∃ r, LifeStep.run (.handshake [49, 58, 49] (some [2]) :: handleSteps 0 ++
        [.act 0 .messageLoopEnds, .act 0 .onDisconnect]) (.fresh [1] 500 4) = some r ∧
      (∀ id, r.manager.getConnection id ≠ some ⟨0, [2], [49, 58, 49]⟩) ∧
      r.SocketClosed ⟨⟨0, [2], [49, 58, 49]⟩, .finished, false, .ended, 0⟩ := by
  let steps := .handshake [49, 58, 49] (some [2]) :: handleSteps 0 ++
    [.act 0 .messageLoopEnds, .act 0 .onDisconnect]
  let r := (LifeStep.run steps (.fresh [1] 500 4)).get (by decide +kernel)
  have hend := no_unmanaged_connections [1] 500 4 steps (by decide +kernel) r
    (some_get _).symm 0 ⟨⟨0, [2], [49, 58, 49]⟩, .finished, false, .ended, 0⟩
    (by decide +kernel) rfl rfl
  exact ⟨r, (some_get _).symm, hend.resolve_left (by simp)⟩

/-- A second connection to a peer is dropped, and its message loop goes on with an open socket. -/
theorem unmanaged_connections :
    (LifeStep.run (.handshake [49, 58, 49] (some [2]) :: handleSteps 0 ++
        [.handshake [49, 58, 50] (some [2]), .act 1 .containsPeer]) (.fresh [1] 500 4)).map
      (fun r => (r.conns[1]?, r.manager.getConnection [2], r.manager.closed)) =
        some (some ⟨⟨1, [2], [49, 58, 50]⟩, .finished, true, .waiting, 0⟩,
          some ⟨0, [2], [49, 58, 49]⟩, []) ∧
    (LifeStep.run (.handshake [49, 58, 49] (some [2]) :: .act 0 .messageLoopEnds ::
        .act 0 .onDisconnect :: handleSteps 0) (.fresh [1] 500 4)).map
      (fun r => (r.conns[0]?, r.manager.getConnection [2])) =
        some (some ⟨⟨0, [2], [49, 58, 49]⟩, .finished, false, .ended, 0⟩,
          some ⟨0, [2], [49, 58, 49]⟩) := by
  decide +kernel

end P2P
