import P2P.ForStd.Tasks
import P2P.Spec.Connections

/-!
# Half-open accounting

`half_open_connections_` is raised in `connect_to_peer` and lowered wherever an attempt can end.
-/

namespace P2P

open ConnectStep ConnectTask List PeerManager Option

/-- An outgoing attempt that holds a slot: `add_connection` has not ended. -/
def ConnectTask.isHalfOpen : ConnectTask → Bool
  | .resolving _ | .connecting _ => true
  | .handshaking _ inbound => !inbound
  | .waiting _ | .acquiring _ | .unchoking _ => false

/-- An outgoing attempt that has passed the increment and has not finished. -/
def ConnectTask.isAttempt (t : ConnectTask) : Bool := t.isHalfOpen || t == .unchoking false

/-- The number of outgoing attempts that have passed the increment and have not finished. -/
def ConnectRun.attempts (r : ConnectRun) : Nat := r.tasks.countP isAttempt

/-! ## The condition -/

/-- `handle_new_connection` comes to `add_connection`: the peer is not ourselves, and the connection
    no duplicate. -/
def ConnectRun.Adds (r : ConnectRun) (peerId : Bytes) : Prop :=
  peerId ≠ r.myPeerId ∧ (r.manager.containsPeer peerId = true → ¬ r.myPeerId < peerId)

instance ConnectRun.Adds.decidable (r : ConnectRun) (peerId : Bytes) : Decidable (r.Adds peerId) :=
  inferInstanceAs (Decidable (_ ∧ _))

/-- An outgoing attempt at `add_connection`: the address is not banned, the session does not shut
    down, and there are enough connections that the peer is not unchoked at once. -/
def ConnectRun.Admits (r : ConnectRun) (peerAddr : Bytes) : Prop :=
  (r.manager.isBanned (extractIpFromAddr peerAddr)).1 = false ∧
    r.manager.shuttingDown = false ∧ unchokeSlots + 1 < r.manager.connectionCount

instance ConnectRun.Admits.decidable (r : ConnectRun) (peerAddr : Bytes) :
    Decidable (r.Admits peerAddr) :=
  inferInstanceAs (Decidable (_ ∧ _ ∧ _))

/-- A handshake ends. An incoming one has no slot to give back. -/
def ConnectRun.HandshakeTidy (r : ConnectRun) (peerId : Option Bytes) : Option ConnectTask → Prop
  | some (.handshaking _ true) => r.manager.halfOpenConnections = 0
  | some (.handshaking peerAddr false) => ∀ id ∈ peerId, r.Adds id → r.Admits peerAddr
  | _ => True

instance ConnectRun.HandshakeTidy.decidable (r : ConnectRun) (peerId : Option Bytes) :
    ∀ t, Decidable (r.HandshakeTidy peerId t) := by
  intro st
  unfold HandshakeTidy
  split <;> infer_instance

/-- A slot that was found free is still free, and a handshake gives back its own slot. -/
def ConnectStep.Tidy (r : ConnectRun) : ConnectStep → Prop
  | .acquireSlot _ => r.manager.halfOpenConnections < r.manager.maxHalfOpenConnections
  | .handshake i peerId => r.HandshakeTidy peerId r.tasks[i]?
  | _ => True

instance ConnectStep.Tidy.decidable (r : ConnectRun) : ∀ st, Decidable (ConnectStep.Tidy r st) := by
  intro st
  unfold ConnectStep.Tidy
  split <;> infer_instance

/-! ## `handle_new_connection` -/

namespace PeerManager

variable {m : PeerManager} {myPeerId : Bytes} {conn : Conn}

theorem handleNewConnection_cases (m : PeerManager) (myPeerId : Bytes) (conn : Conn) :
    m.handleNewConnection myPeerId conn = (false, m.releaseHalfOpen) ∨
      ∃ closed conns, m.handleNewConnection myPeerId conn =
        addConnection { m with closed := closed, activeConnections := conns } conn.peerId conn := by
  unfold handleNewConnection
  split
  · exact .inr ⟨m.closed, m.activeConnections, rfl⟩
  · next other _ =>
    split
    · exact .inl rfl
    · obtain ⟨conns, _, hremoved⟩ := (m.close other).removeConnection_eq conn.peerId (some conn)
      exact .inr ⟨_, conns, by rw [hremoved]; rfl⟩

theorem handleNewConnection_slots {m' : PeerManager} {added : Bool}
    (h : m.handleNewConnection myPeerId conn = (added, m')) :
    m'.maxHalfOpenConnections = m.maxHalfOpenConnections ∧
      m'.halfOpenConnections ≤ m.halfOpenConnections ∧
      ((m.isBanned conn.ip).1 = false → m.shuttingDown = false →
        m'.halfOpenConnections = m.halfOpenConnections - 1) := by
  obtain rfl : (m.handleNewConnection myPeerId conn).2 = m' := congrArg Prod.snd h
  rcases m.handleNewConnection_cases myPeerId conn with heq | ⟨closed, conns, heq⟩
  · rw [heq, releaseHalfOpen_eq]
    exact ⟨rfl, Nat.sub_le _ 1, fun _ _ => rfl⟩
  · obtain ⟨bans, closed', conns', hadd⟩ := addConnection_eq
      { m with closed := closed, activeConnections := conns } conn.peerId conn
    rw [heq, hadd]
    refine ⟨rfl, Nat.sub_le .., fun hfree hup => ?_⟩
    have hrefused : (refuse { m with closed := closed, activeConnections := conns } conn).1 =
        false := by
      refine refuse_fst.mpr ⟨Eq.trans (isBanned_fst_congr ?_ ?_ conn.ip) hfree, hup⟩ <;> rfl
    rw [hrefused]
    rfl

theorem Added.connectionCount_le {id : Bytes} {conns : OrdMap Bytes Conn}
    (h : m.Added id conn true conns) : m.connectionCount ≤ conns.entries.length + 1 := by
  cases h with
  | room _ _ =>
    have hid := m.activeConnections.length_le_erase id
    rw [OrdMap.length_insert]
    unfold connectionCount
    omega
  | evicted worst _ _ _ =>
    have hworst := m.activeConnections.length_le_erase worst.peerId
    have hid := (m.activeConnections.erase worst.peerId).length_le_erase id
    rw [OrdMap.length_insert]
    unfold connectionCount
    omega

end PeerManager

/-! ## The invariant -/

namespace ConnectRun

structure Counted (r : ConnectRun) (maxHalfOpen : Nat) : Prop where
  max_eq : r.manager.maxHalfOpenConnections = maxHalfOpen
  eq : r.manager.halfOpenConnections = r.tasks.countP isHalfOpen
  le : r.manager.halfOpenConnections ≤ maxHalfOpen
  ended : ∀ t ∈ r.tasks, t ≠ .unchoking false

variable {r : ConnectRun} {maxHalfOpen : Nat} {i : Nat} {t : ConnectTask} {m : PeerManager}

section

variable (hr : r.Counted maxHalfOpen)

include hr

theorem Counted.pos (ht : r.tasks[i]? = some t) (hslot : t.isHalfOpen = true) :
    0 < r.manager.halfOpenConnections := by
  rw [hr.eq]
  exact countP_pos_iff.mpr ⟨t, mem_of_getElem? ht, hslot⟩

theorem Counted.finish (ht : r.tasks[i]? = some t)
    (hmax : m.maxHalfOpenConnections = r.manager.maxHalfOpenConnections)
    (hm : m.halfOpenConnections + t.isHalfOpen.toNat = r.manager.halfOpenConnections) :
    (r.resume i m none).Counted maxHalfOpen := by
  have hcount := countP_eraseIdx_add ht isHalfOpen
  have hle := hr.le
  refine ⟨hmax.trans hr.max_eq, ?_, ?_, fun t ht => hr.ended t (mem_of_mem_eraseIdx ht)⟩
  · show m.halfOpenConnections = (r.tasks.eraseIdx i).countP isHalfOpen
    have := hr.eq
    omega
  · show m.halfOpenConnections ≤ maxHalfOpen
    omega

theorem Counted.goOn (ht : r.tasks[i]? = some t) {t' : ConnectTask}
    (hmax : m.maxHalfOpenConnections = r.manager.maxHalfOpenConnections)
    (hm : m.halfOpenConnections + t.isHalfOpen.toNat =
      r.manager.halfOpenConnections + t'.isHalfOpen.toNat)
    (hle : m.halfOpenConnections ≤ maxHalfOpen) (hover : t' ≠ .unchoking false) :
    (r.resume i m (some t')).Counted maxHalfOpen := by
  have hcount := countP_set_add ht t' isHalfOpen
  refine ⟨hmax.trans hr.max_eq, ?_, hle, forall_mem_set hr.ended hover⟩
  show m.halfOpenConnections = (r.tasks.set i t').countP isHalfOpen
  have := hr.eq
  omega

theorem Counted.begin {t' : ConnectTask}
    (hmax : m.maxHalfOpenConnections = r.manager.maxHalfOpenConnections)
    (hm : m.halfOpenConnections = r.manager.halfOpenConnections) (hslot : t'.isHalfOpen = false)
    (hover : t' ≠ .unchoking false) :
    Counted { r with manager := m, tasks := r.tasks ++ [t'] } maxHalfOpen := by
  refine ⟨hmax.trans hr.max_eq, ?_, hm.trans_le hr.le, ?_⟩
  · show m.halfOpenConnections = (r.tasks ++ [t']).countP isHalfOpen
    rw [hm, hr.eq, countP_append, countP_singleton, hslot]
    rfl
  · intro t ht
    rcases mem_append.mp ht with hold | hnew
    · exact hr.ended t hold
    · exact mem_singleton.mp hnew ▸ hover

theorem Counted.frame {conns : List Conn}
    (hmax : m.maxHalfOpenConnections = r.manager.maxHalfOpenConnections)
    (hm : m.halfOpenConnections = r.manager.halfOpenConnections) :
    Counted { r with manager := m, conns := conns } maxHalfOpen :=
  ⟨hmax.trans hr.max_eq, hm.trans hr.eq, hm.trans_le hr.le, hr.ended⟩

end

variable {peerAddr : Bytes}

theorem Counted.failure (hr : r.Counted maxHalfOpen) (ht : r.tasks[i]? = some t)
    (hmax : m.maxHalfOpenConnections = r.manager.maxHalfOpenConnections)
    (hm : m.halfOpenConnections + t.isHalfOpen.toNat = r.manager.halfOpenConnections) :
    (r.resume i (m.reportConnectionFailure peerAddr) none).Counted maxHalfOpen := by
  obtain ⟨bans, misbehavior, closed, conns, heq⟩ := m.reportMisbehavior_eq _ peerAddr
  rw [reportConnectionFailure, heq]
  exact hr.finish ht hmax hm

/-! ## The end of a handshake -/

variable {peerId : Bytes}

theorem Counted.addPeer_inbound (hr : r.Counted maxHalfOpen)
    (ht : r.tasks[i]? = some (.handshaking peerAddr true))
    (hzero : r.manager.halfOpenConnections = 0) :
    (r.addPeer i peerAddr true peerId).Counted maxHalfOpen := by
  have hr' : Counted { r with conns := r.conns ++ [⟨r.conns.length, peerId, peerAddr⟩] }
      maxHalfOpen := hr.frame rfl rfl
  have hslots : ∀ {added m}, r.manager.handleNewConnection r.myPeerId
      ⟨r.conns.length, peerId, peerAddr⟩ = (added, m) →
      m.maxHalfOpenConnections = r.manager.maxHalfOpenConnections ∧
        m.halfOpenConnections = r.manager.halfOpenConnections := by
    intro added m heq
    obtain ⟨hmax, hle, _⟩ := handleNewConnection_slots heq
    exact ⟨hmax, hle.antisymm (hzero.trans_le (Nat.zero_le _))⟩
  simp only [addPeer]
  split
  · next m heq =>
    obtain ⟨hmax, hm⟩ := hslots heq
    exact hr'.finish ht hmax hm
  · next m heq =>
    obtain ⟨hmax, hm⟩ := hslots heq
    split
    · exact hr'.goOn ht hmax hm (hm.trans_le hr.le) (by simp)
    · exact hr'.finish ht hmax hm

theorem addPeer_eq_resume {inbound added : Bool}
    (heq : r.manager.handleNewConnection r.myPeerId ⟨r.conns.length, peerId, peerAddr⟩ = (added, m))
    (hmany : added = true → unchokeSlots < m.connectionCount) :
    r.addPeer i peerAddr inbound peerId =
      resume { r with conns := r.conns ++ [⟨r.conns.length, peerId, peerAddr⟩] } i m none := by
  cases added with
  | false => simp only [addPeer, heq]
  | true => simp only [addPeer, heq, if_neg (not_le.mpr (hmany rfl))]

theorem Counted.addPeer_outgoing (hr : r.Counted maxHalfOpen) (hreg : r.Registered)
    (ht : r.tasks[i]? = some (.handshaking peerAddr false)) (hself : peerId ≠ r.myPeerId)
    (htidy : r.Adds peerId → r.Admits peerAddr) :
    (r.addPeer i peerAddr false peerId).Counted maxHalfOpen := by
  have hgive := Nat.sub_add_cancel (hr.pos ht rfl)
  have hr' : Counted { r with conns := r.conns ++ [⟨r.conns.length, peerId, peerAddr⟩] }
      maxHalfOpen := hr.frame rfl rfl
  by_cases hdrop : r.manager.containsPeer peerId = true ∧ r.myPeerId < peerId
  · -- the connection is dropped as a duplicate
    rw [addPeer_eq_resume (handleNewConnection_drop hdrop.1 hdrop.2) (by simp), releaseHalfOpen_eq]
    exact hr'.finish ht rfl hgive
  · -- the connection comes to `add_connection`
    obtain ⟨hfree, hup, hmany⟩ := htidy ⟨hself, fun hc hlt => hdrop ⟨hc, hlt⟩⟩
    obtain ⟨⟨added, m⟩, heq⟩ : ∃ p, r.manager.handleNewConnection r.myPeerId
      ⟨r.conns.length, peerId, peerAddr⟩ = p := ⟨_, rfl⟩
    obtain ⟨hmax, _, hm⟩ := handleNewConnection_slots heq
    have hadded := handleNewConnection_added r.myPeerId
      ⟨r.conns.length, peerId, peerAddr⟩ fun _ hget => hreg.object_ne hget
    rw [heq] at hadded
    rw [addPeer_eq_resume heq ?_]
    · exact hr'.finish ht hmax (by rw [hm hfree hup]; exact hgive)
    · rintro rfl
      have hcount := hadded.connectionCount_le
      exact Nat.lt_of_succ_lt_succ (hmany.trans_le hcount)

end ConnectRun

namespace ConnectStep

open ConnectRun

theorem handshake_counted {maxHalfOpen i : Nat} {peerId : Option Bytes} {r r' : ConnectRun}
    (htidy : r.HandshakeTidy peerId r.tasks[i]?) (h : step r (.handshake i peerId) = some r')
    (hreg : r.Registered) (hr : r.Counted maxHalfOpen) : r'.Counted maxHalfOpen := by
  simp only [step, releaseHalfOpen_eq] at h
  split at h
  · next peerAddr inbound ht =>
    rw [ht] at htidy
    cases inbound with
    | true =>
      -- an incoming connection has no slot, but releases one all the same
      have hfail : (r.manager.halfOpenConnections - 1) + 0 = r.manager.halfOpenConnections := by
        have hzero : r.manager.halfOpenConnections = 0 := htidy
        rw [hzero]
      split at h
      · exact some.inj h ▸ hr.failure ht rfl hfail
      · split at h
        · exact some.inj h ▸ hr.failure ht rfl hfail
        · exact some.inj h ▸ hr.addPeer_inbound ht htidy
    | false =>
      have hfail := Nat.sub_add_cancel (hr.pos ht rfl)
      split at h
      · exact some.inj h ▸ hr.failure ht rfl hfail
      · next peerId =>
        split at h
        · exact some.inj h ▸ hr.failure ht rfl hfail
        · next hself =>
          exact some.inj h ▸ hr.addPeer_outgoing hreg ht hself (htidy peerId rfl)
  · cases h

theorem step_counted {maxHalfOpen : Nat} (r : ConnectRun) (st : ConnectStep) (r' : ConnectRun)
    (htidy : Tidy r st) (h : step r st = some r') (hr : r.Registered ∧ r.Counted maxHalfOpen) :
    r'.Registered ∧ r'.Counted maxHalfOpen := by
  refine ⟨step_registered r st r' h hr.1, ?_⟩
  obtain ⟨hreg, hr⟩ := hr
  cases st with simp only [step] at h
  | connectToPeer peerAddr skipped =>
    split at h
    · exact some.inj h ▸ hr
    · split at h
      · next m heq =>
        obtain ⟨bans, rfl⟩ := isBanned_inv heq
        exact some.inj h ▸ hr.frame rfl rfl
      · next m heq =>
        obtain ⟨bans, rfl⟩ := isBanned_inv heq
        split at h
        · exact some.inj h ▸ hr.frame rfl rfl
        · exact some.inj h ▸ hr.begin rfl rfl rfl (by simp)
  | slotTest i =>
    split at h
    · next peerAddr ht =>
      split at h
      · split at h
        · exact some.inj h ▸ hr.finish ht rfl rfl
        · exact some.inj h ▸ hr
      · exact some.inj h ▸ hr.goOn ht rfl rfl hr.le (by simp)
    · cases h
  | acquireSlot i =>
    split at h
    · next peerAddr ht =>
      split at h
      · -- the slot may have been taken since the test
        refine some.inj h ▸ hr.goOn ht rfl rfl ?_ (by simp)
        exact hr.max_eq ▸ htidy
      · rw [releaseHalfOpen_eq] at h
        exact some.inj h ▸ hr.failure ht rfl rfl
    · cases h
  | resolved i success =>
    simp only [releaseHalfOpen_eq] at h
    split at h
    · next peerAddr ht =>
      split at h
      · exact some.inj h ▸ hr.finish ht rfl (Nat.sub_add_cancel (hr.pos ht rfl))
      · exact some.inj h ▸ hr.goOn ht rfl rfl hr.le (by simp)
    · cases h
  | connected i success =>
    simp only [releaseHalfOpen_eq] at h
    split at h
    · next peerAddr ht =>
      have hpos := hr.pos ht rfl
      split at h
      · exact some.inj h ▸ hr.finish ht rfl (Nat.sub_add_cancel hpos)
      · split at h
        · exact some.inj h ▸ hr.failure ht rfl (Nat.sub_add_cancel hpos)
        · exact some.inj h ▸ hr.goOn ht rfl rfl hr.le (by simp)
    · cases h
  | accepted peerAddr => exact some.inj h ▸ hr.begin rfl rfl rfl (by simp)
  | handshake i peerId => exact handshake_counted htidy h hreg hr
  | unchokeSent i =>
    split at h
    · next inbound ht => exact some.inj h ▸ hr.finish ht rfl rfl
    · cases h
  | onDisconnect object =>
    obtain ⟨conn, _, rfl⟩ := Option.map_eq_some_iff.mp h
    unfold PeerManager.onDisconnect
    split
    · exact hr.frame rfl rfl
    · exact hr.frame rfl rfl
  | banPeerByIp | stop | closeAll | transfer | wait => exact some.inj h ▸ hr.frame rfl rfl

end ConnectStep

/-! ## Whole runs -/

/-- In a run of tidy steps the counter is the number of outgoing attempts that have passed the
    increment and have not finished, and these are never more than the limit. -/
theorem half_open_connections_eq_attempts (myPeerId : Bytes) (maxTotal maxPerIp maxHalfOpen : Nat)
    (steps : List ConnectStep) (r : ConnectRun)
    (htidy : StepsMeet step ConnectStep.Tidy steps
      (.fresh myPeerId maxTotal maxPerIp maxHalfOpen))
    (hrun : run steps (.fresh myPeerId maxTotal maxPerIp maxHalfOpen) = some r) :
    r.manager.halfOpenConnections = r.attempts ∧
      ((∀ t ∈ r.tasks, t.isAttempt = false) → r.manager.halfOpenConnections = 0) ∧
      r.attempts ≤ maxHalfOpen := by
  have hstart : (ConnectRun.fresh myPeerId maxTotal maxPerIp maxHalfOpen).Counted maxHalfOpen :=
    ⟨rfl, rfl, Nat.zero_le _, fun _ ht => absurd ht not_mem_nil⟩
  obtain ⟨_, hr⟩ := runSteps_invariant step_counted htidy hrun
    ⟨fun _ he => absurd he not_mem_nil, hstart⟩
  have hattempts : r.manager.halfOpenConnections = r.attempts := by
    rw [hr.eq]
    refine countP_congr fun t ht => ?_
    simp [isAttempt, hr.ended t ht]
  refine ⟨hattempts, fun hnone => ?_, hattempts ▸ hr.le⟩
  rw [hattempts]
  exact countP_eq_zero.mpr fun t ht => by simp [hnone t ht]

def outgoingAmongMany : List ConnectStep :=
  ((List.range 14).flatMap fun k =>
    [.accepted [k.toUInt8], .handshake 0 (some [1, k.toUInt8])] ++
      if k < unchokeSlots then [.unchokeSent 0] else []) ++
  [.connectToPeer [49, 58, 49] false, .slotTest 0, .acquireSlot 0, .resolved 0 true,
    .connected 0 true, .handshake 0 (some [2])]

theorem half_open_connections_eq_attempts_outgoing :
    (∃ r, run outgoingAmongMany.dropLast (.fresh [0] 500 4 500) = some r ∧
      r.attempts = 1 ∧ r.manager.halfOpenConnections = r.attempts) ∧
    ∃ r, run outgoingAmongMany (.fresh [0] 500 4 500) = some r ∧
      r.manager.connectionCount = 15 ∧ r.manager.halfOpenConnections = 0 := by
  let before := (run outgoingAmongMany.dropLast (.fresh [0] 500 4 500)).get
    (by decide +kernel)
  let after := (run outgoingAmongMany (.fresh [0] 500 4 500)).get (by decide +kernel)
  have hbefore := half_open_connections_eq_attempts [0] 500 4 500 outgoingAmongMany.dropLast before
    (by decide +kernel) (some_get _).symm
  have hafter := half_open_connections_eq_attempts [0] 500 4 500 outgoingAmongMany after
    (by decide +kernel) (some_get _).symm
  exact ⟨⟨before, (some_get _).symm, by decide +kernel, hbefore.1⟩,
    ⟨after, (some_get _).symm, by decide +kernel, hafter.2.1 (by decide +kernel)⟩⟩

/-- Runs in which the counter does not keep to the attempts. -/
theorem half_open_connections_drift :
    (run [.connectToPeer [49, 58, 49] false, .slotTest 0, .acquireSlot 0,
        .accepted [50, 58, 49], .handshake 1 none]
      (.fresh [0] 500 4 1)).map (fun r => (r.manager.halfOpenConnections, r.attempts)) =
        some (0, 1) ∧
    (run [.connectToPeer [49, 58, 49] false, .slotTest 0, .acquireSlot 0,
        .accepted [50, 58, 49], .handshake 1 none,
        .connectToPeer [51, 58, 49] false, .slotTest 1, .acquireSlot 1]
      (.fresh [0] 500 4 1)).map (fun r => (r.manager.halfOpenConnections, r.attempts)) =
        some (1, 2) ∧
    (run [.connectToPeer [49, 58, 49] false, .slotTest 0, .acquireSlot 0,
        .resolved 0 true, .connected 0 true, .banPeerByIp [49], .handshake 0 (some [1])]
      (.fresh [0] 500 4 1)).map (fun r => (r.manager.halfOpenConnections, r.tasks)) =
        some (1, []) ∧
    (run [.connectToPeer [49, 58, 49] false, .slotTest 0, .acquireSlot 0,
        .resolved 0 true, .connected 0 true, .handshake 0 (some [1])]
      (.fresh [0] 500 4 1)).map (fun r => (r.manager.halfOpenConnections, r.attempts)) =
        some (0, 1) := by
  decide +kernel

end P2P
