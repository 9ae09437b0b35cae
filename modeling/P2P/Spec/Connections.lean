import P2P.Native.Connections
import P2P.Spec.PeerManager

/-!
# What a step does to the registered connections

Most steps leave the registered connections alone.
-/

namespace P2P

open Option PeerManager

def ConnectRun.Registered (r : ConnectRun) : Prop :=
  ∀ e ∈ r.manager.activeConnections.entries, e.2.peerId = e.1 ∧ r.conns[e.2.object]? = some e.2

namespace ConnectStep

/-- The steps that may ban an address: a ban, or a connection that has failed too often. -/
def Bans (r : ConnectRun) (ip : Bytes) : ConnectStep → Prop
  | .banPeerByIp ip' => ip' = ip
  | .acquireSlot i =>
    ∃ peerAddr, r.tasks[i]? = some (.acquiring peerAddr) ∧ extractIpFromAddr peerAddr = ip
  | .connected i _ =>
    ∃ peerAddr, r.tasks[i]? = some (.connecting peerAddr) ∧ extractIpFromAddr peerAddr = ip
  | .handshake i _ =>
    ∃ peerAddr inbound, r.tasks[i]? = some (.handshaking peerAddr inbound) ∧
      extractIpFromAddr peerAddr = ip
  | _ => False

inductive Change (r r' : ConnectRun) : ConnectStep → Prop
  | same (st : ConnectStep) (hconns : r'.conns = r.conns)
      (hactive : r'.manager.activeConnections = r.manager.activeConnections) : Change r r' st
  | banned (st : ConnectStep) (ip : Bytes) (hst : st.Bans r ip)
      (hban : r'.manager.bannedPeers.get? ip =
        some ⟨r.manager.now, r.manager.now + banDuration⟩)
      (hconns : r'.conns = r.conns)
      (hactive : r'.manager.activeConnections = (r.manager.closeFrom ip).activeConnections) :
      Change r r' st
  | added (i : Nat) (peerId peerAddr : Bytes) (added : Bool)
      (hconns : r'.conns = r.conns ++ [⟨r.conns.length, peerId, peerAddr⟩])
      (hadded : r.manager.Added peerId ⟨r.conns.length, peerId, peerAddr⟩ added
        r'.manager.activeConnections) : Change r r' (.handshake i (some peerId))
  | disconnected (object : Nat) (conn : Conn) (hconn : r.conns[object]? = some conn)
      (hconns : r'.conns = r.conns)
      (hactive : r'.manager.activeConnections = r.manager.activeConnections.erase conn.peerId) :
      Change r r' (.onDisconnect object)
  | closedAll (hconns : r'.conns = r.conns)
      (hactive : r'.manager.activeConnections = OrdMap.empty) : Change r r' .closeAll

end ConnectStep

namespace PeerManager

variable {m : PeerManager} {conn : Conn}

theorem removeConnection_of_ne {id : Bytes}
    (hnew : ∀ other, m.activeConnections.get? id = some other → other.object ≠ conn.object) :
    m.removeConnection id (some conn) = m := by
  unfold removeConnection
  refine if_neg fun heq => ?_
  obtain ⟨other, hget, hobject⟩ := map_eq_some_iff.mp heq
  exact hnew other hget hobject

theorem handleNewConnection_of_none (hget : m.getConnection conn.peerId = none) (myPeerId : Bytes) :
    m.handleNewConnection myPeerId conn = m.addConnection conn.peerId conn := by
  unfold handleNewConnection
  rw [hget]

theorem handleNewConnection_drop {myPeerId : Bytes} (hcontains : m.containsPeer conn.peerId = true)
    (hlt : myPeerId < conn.peerId) :
    m.handleNewConnection myPeerId conn = (false, m.releaseHalfOpen) := by
  obtain ⟨other, hget⟩ := isSome_iff_exists.mp hcontains
  unfold handleNewConnection getConnection
  rw [hget]
  exact if_pos hlt

theorem handleNewConnection_replace {myPeerId : Bytes} {other : Conn}
    (hget : m.getConnection conn.peerId = some other) (hlt : ¬ myPeerId < conn.peerId)
    (hnew : other.object ≠ conn.object) :
    m.handleNewConnection myPeerId conn = (m.close other).addConnection conn.peerId conn := by
  have hremove : (m.close other).removeConnection conn.peerId (some conn) = m.close other :=
    removeConnection_of_ne fun other' hget' => some.inj (hget.symm.trans hget') ▸ hnew
  unfold handleNewConnection
  rw [hget, ← hremove]
  exact if_neg hlt

theorem handleNewConnection_added (myPeerId : Bytes) (conn : Conn)
    (hnew : ∀ other, m.activeConnections.get? conn.peerId = some other →
      other.object ≠ conn.object) :
    m.Added conn.peerId conn (m.handleNewConnection myPeerId conn).1
      (m.handleNewConnection myPeerId conn).2.activeConnections := by
  unfold handleNewConnection
  split
  · exact m.addConnection_added conn.peerId conn
  · next other hget =>
    split
    · rw [releaseHalfOpen_eq]
      exact .refused
    · rw [removeConnection_of_ne (m := m.close other) hnew]
      refine Added.congr ?_ ?_ ?_ ?_ (addConnection_added _ conn.peerId conn) <;> rfl

end PeerManager

namespace ConnectRun

variable {r : ConnectRun}

theorem Registered.object_ne (hr : r.Registered) {id : Bytes} {other : Conn}
    (hget : r.manager.activeConnections.get? id = some other) : other.object ≠ r.conns.length := by
  have hmade := (hr _ ((OrdMap.mem_entries _).mpr hget)).2
  exact Nat.ne_of_lt (List.getElem?_eq_some_iff.mp hmade).1

theorem addPeer_change (hr : r.Registered) (i : Nat) (peerAddr : Bytes) (inbound : Bool)
    (peerId : Bytes) :
    ConnectStep.Change r (r.addPeer i peerAddr inbound peerId) (.handshake i (some peerId)) := by
  have hadded := handleNewConnection_added r.myPeerId
    ⟨r.conns.length, peerId, peerAddr⟩ fun other => hr.object_ne
  simp only [addPeer]
  split
  · next m heq =>
    rw [heq] at hadded
    exact .added i peerId peerAddr false rfl hadded
  · next m heq =>
    rw [heq] at hadded
    exact .added i peerId peerAddr true rfl hadded

end ConnectRun

namespace ConnectStep

open ConnectRun

variable {r r' : ConnectRun}

theorem change_of_failure {st : ConnectStep} {i : Nat} {m : PeerManager} {peerAddr : Bytes}
    (hst : st.Bans r (extractIpFromAddr peerAddr))
    (hactive : m.activeConnections = r.manager.activeConnections) (hnow : m.now = r.manager.now) :
    Change r (r.resume i (m.reportConnectionFailure peerAddr) none) st := by
  rcases m.reportMisbehavior_connections _ peerAddr with hsame | ⟨hclosed, hban⟩
  · exact .same st rfl (hsame.trans hactive)
  · refine .banned st _ hst (hnow ▸ hban) rfl (hclosed.trans ?_)
    unfold PeerManager.closeFrom
    rw [hactive]

theorem step_change {st : ConnectStep} (hr : r.Registered) (h : step r st = some r') :
    Change r r' st := by
  cases st with simp only [step] at h
  | connectToPeer peerAddr skipped =>
    split at h
    · exact some.inj h ▸ .same _ rfl rfl
    · split at h
      · next m heq =>
        obtain ⟨bans, rfl⟩ := isBanned_inv heq
        exact some.inj h ▸ .same _ rfl rfl
      · next m heq =>
        obtain ⟨bans, rfl⟩ := isBanned_inv heq
        split at h <;> exact some.inj h ▸ .same _ rfl rfl
  | slotTest i =>
    split at h
    · split at h
      · split at h <;> exact some.inj h ▸ .same _ rfl rfl
      · exact some.inj h ▸ .same _ rfl rfl
    · cases h
  | acquireSlot i =>
    split at h
    · next peerAddr htask =>
      split at h
      · exact some.inj h ▸ .same _ rfl rfl
      · -- the failure is reported, which may ban the address
        rw [releaseHalfOpen_eq] at h
        exact some.inj h ▸ change_of_failure ⟨peerAddr, htask, rfl⟩ rfl rfl
    · cases h
  | resolved i success =>
    split at h
    · split at h
      · rw [releaseHalfOpen_eq] at h
        exact some.inj h ▸ .same _ rfl rfl
      · exact some.inj h ▸ .same _ rfl rfl
    · cases h
  | connected i success =>
    simp only [releaseHalfOpen_eq] at h
    split at h
    · next peerAddr htask =>
      split at h
      · exact some.inj h ▸ .same _ rfl rfl
      · split at h
        · exact some.inj h ▸ change_of_failure ⟨peerAddr, htask, rfl⟩ rfl rfl
        · exact some.inj h ▸ .same _ rfl rfl
    · cases h
  | accepted | stop | transfer | wait => exact some.inj h ▸ .same _ rfl rfl
  | handshake i peerId =>
    simp only [releaseHalfOpen_eq] at h
    split at h
    · next peerAddr inbound htask =>
      split at h
      · exact some.inj h ▸ change_of_failure ⟨peerAddr, inbound, htask, rfl⟩ rfl rfl
      · next peerId =>
        split at h
        · exact some.inj h ▸ change_of_failure ⟨peerAddr, inbound, htask, rfl⟩ rfl rfl
        · exact some.inj h ▸ addPeer_change hr i peerAddr inbound peerId
    · cases h
  | unchokeSent i =>
    split at h
    · exact some.inj h ▸ .same _ rfl rfl
    · cases h
  | onDisconnect object =>
    obtain ⟨conn, hconn, rfl⟩ := map_eq_some_iff.mp h
    cases hup : r.manager.shuttingDown with
    | false =>
      refine .disconnected object conn hconn rfl ?_
      simp [PeerManager.onDisconnect, hup, PeerManager.removeConnection, PeerManager.close]
    | true =>
      -- `on_disconnect` returns at once, and the entry stays until `closeAll`
      refine .same _ rfl ?_
      simp [PeerManager.onDisconnect, hup, PeerManager.close]
  | banPeerByIp ip =>
    refine some.inj h ▸ .banned _ ip rfl ?_ rfl rfl
    simp [PeerManager.banPeerByIp, PeerManager.closeFrom, PeerManager.recordBan, OrdMap.get?_insert]
  | closeAll => exact some.inj h ▸ .closedAll rfl rfl

theorem registered_of_subset (hr : r.Registered) (hconns : r'.conns = r.conns)
    (hsub : r'.manager.activeConnections.entries ⊆ r.manager.activeConnections.entries) :
    r'.Registered := by
  intro e he
  rw [hconns]
  exact hr e (hsub he)

theorem step_registered (r : ConnectRun) (st : ConnectStep) (r' : ConnectRun)
    (h : step r st = some r') (hr : r.Registered) : r'.Registered := by
  cases step_change hr h with
  | same _ hconns hactive =>
    exact registered_of_subset hr hconns (hactive ▸ List.Subset.refl _)
  | banned _ ip _ _ hconns hactive =>
    exact registered_of_subset hr hconns (hactive ▸ (r.manager.closeFrom_sublist ip).subset)
  | added i peerId peerAddr added hconns hadded =>
    intro e he
    rcases hadded.mem he with ⟨_, rfl⟩ | hold
    · exact ⟨rfl, by rw [hconns, List.getElem?_concat_length]⟩
    · obtain ⟨hid, hmade⟩ := hr e hold
      refine ⟨hid, ?_⟩
      rw [hconns, List.getElem?_append_left (List.getElem?_eq_some_iff.mp hmade).1]
      exact hmade
  | disconnected object conn hconn hconns hactive =>
    exact registered_of_subset hr hconns
      (hactive ▸ (OrdMap.entries_erase_sublist _ conn.peerId).subset)
  | closedAll hconns hactive =>
    intro e he
    rw [hactive] at he
    cases he

theorem registered_run {myPeerId : Bytes} {manager : PeerManager} {steps : List ConnectStep}
    (hempty : manager.activeConnections = OrdMap.empty)
    (hrun : run steps (start myPeerId manager) = some r) : r.Registered := by
  refine runSteps_preserves step_registered hrun fun e he => ?_
  rw [start, hempty] at he
  cases he

end ConnectStep

end P2P
