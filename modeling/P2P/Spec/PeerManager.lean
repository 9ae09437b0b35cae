import P2P.Native.PeerManager

/-!
# What the peer manager does to its connections

`add_connection` has many exits.
-/

namespace P2P

open List OrdMap

namespace PeerManager

/-! ## The helpers -/

variable {m m' : PeerManager} {ip : Bytes}

theorem isBanned_inv {banned : Bool} (h : m.isBanned ip = (banned, m')) :
    ∃ bans, m' = { m with bannedPeers := bans } := by
  unfold isBanned at h
  split at h
  · exact ⟨m.bannedPeers, (Prod.mk.inj h).2.symm⟩
  · split at h
    · exact ⟨_, (Prod.mk.inj h).2.symm⟩
    · exact ⟨m.bannedPeers, (Prod.mk.inj h).2.symm⟩

theorem isBanned_fst :
    (m.isBanned ip).1 = true ↔ ∃ ban, m.bannedPeers.get? ip = some ban ∧
      m.now < ban.expiryTime := by
  unfold isBanned
  split
  · next hnone => simp [hnone]
  · next ban hsome =>
    split
    · next hexpired => simp [hsome, hexpired]
    · next hrunning => simp [hsome, Nat.lt_of_not_le hrunning]

theorem isBanned_fst_congr (hbans : m'.bannedPeers = m.bannedPeers) (hnow : m'.now = m.now)
    (ip : Bytes) : (m'.isBanned ip).1 = (m.isBanned ip).1 := by
  rw [Bool.eq_iff_iff, isBanned_fst, isBanned_fst, hbans, hnow]

variable {ban : BannedPeer}

theorem isBanned_bannedPeers (ip : Bytes) {ip' : Bytes} (hban : m.bannedPeers.get? ip' = some ban)
    (hrunning : m.now < ban.expiryTime) : (m.isBanned ip).2.bannedPeers.get? ip' = some ban := by
  unfold isBanned
  split
  · exact hban
  · next ban' hsome =>
    split
    · next hexpired =>
      rw [get?_erase, if_neg ?_]
      · exact hban
      · -- the ban that is forgotten is another one
        rintro rfl
        rw [hsome, Option.some.injEq] at hban
        rw [hban] at hexpired
        omega
    · exact hban

theorem releaseHalfOpen_eq (m : PeerManager) :
    m.releaseHalfOpen = { m with halfOpenConnections := m.halfOpenConnections - 1 } := by
  unfold releaseHalfOpen
  split
  · rfl
  · next hzero =>
    cases m
    simp_all

theorem register_eq (m : PeerManager) (id : Bytes) (conn : Conn) :
    ∃ closed, m.register id conn =
      { m with closed := closed, activeConnections := m.activeConnections.insert id conn } := by
  unfold register
  split
  · exact ⟨_, rfl⟩
  · exact ⟨m.closed, rfl⟩

theorem register_activeConnections (m : PeerManager) (id : Bytes) (conn : Conn) :
    (m.register id conn).activeConnections = m.activeConnections.insert id conn := by
  obtain ⟨closed, heq⟩ := m.register_eq id conn
  rw [heq]

variable {conn : Conn}

theorem worstOf_mem {entries : List (Bytes × Conn)} {minRate : UInt64} {worst : Option Conn}
    (h : m.worstOf entries minRate worst = some conn) :
    worst = some conn ∨ ∃ id, (id, conn) ∈ entries := by
  induction entries generalizing minRate worst with
  | nil => exact .inl h
  | cons e entries ih =>
    simp only [worstOf] at h
    split at h
    · rcases ih h with heq | ⟨id, hmem⟩
      · exact .inr ⟨e.1, Option.some.inj heq ▸ mem_cons_self ..⟩
      · exact .inr ⟨id, mem_cons_of_mem _ hmem⟩
    · rcases ih h with heq | ⟨id, hmem⟩
      · exact .inl heq
      · exact .inr ⟨id, mem_cons_of_mem _ hmem⟩

theorem findWorstPeer_mem {worst : Conn} (h : m.findWorstPeer = some worst) :
    ∃ id, m.activeConnections.get? id = some worst := by
  rcases worstOf_mem h with hnone | ⟨id, hmem⟩
  · cases hnone
  · exact ⟨id, (mem_entries _).mp hmem⟩

theorem findWorstPeer_congr (hactive : m'.activeConnections = m.activeConnections)
    (htraffic : m'.traffic = m.traffic) : m'.findWorstPeer = m.findWorstPeer := by
  have hrate : m'.rate = m.rate := by
    funext conn
    unfold rate
    rw [htraffic]
  have hworst : ∀ entries minRate worst,
      m'.worstOf entries minRate worst = m.worstOf entries minRate worst := by
    intro entries
    induction entries with
    | nil => intro _ _; rfl
    | cons e entries ih =>
      intro minRate worst
      simp only [worstOf, hrate, ih]
  unfold findWorstPeer
  rw [hworst, hactive]

/-! ## What `add_connection` leaves alone -/

theorem checkLimits_eq (m : PeerManager) (id : Bytes) (conn : Conn) :
    ∃ closed conns, (m.checkLimits id conn).2 =
      { m with closed := closed, activeConnections := conns } := by
  unfold checkLimits
  split
  · exact ⟨_, m.activeConnections, rfl⟩
  · split
    · split
      · exact ⟨_, m.activeConnections, rfl⟩
      · obtain ⟨closed, heq⟩ := register_eq
          { m with
            closed := _, activeConnections := m.activeConnections.erase _ } id conn
        exact ⟨closed, _, heq⟩
    · obtain ⟨closed, heq⟩ := m.register_eq id conn
      exact ⟨closed, _, heq⟩

theorem addLocked_eq (m : PeerManager) (id : Bytes) (conn : Conn) :
    ∃ bans closed conns, (m.addLocked id conn).2 =
      { m with
        halfOpenConnections := m.halfOpenConnections - 1
        bannedPeers := bans
        closed := closed
        activeConnections := conns } := by
  unfold addLocked
  rw [releaseHalfOpen_eq]
  split
  · next m' heq =>
    obtain ⟨bans, rfl⟩ := isBanned_inv heq
    exact ⟨bans, _, m.activeConnections, rfl⟩
  · next m' heq =>
    obtain ⟨bans, rfl⟩ := isBanned_inv heq
    obtain ⟨closed, conns, hlimits⟩ := checkLimits_eq
      { m with halfOpenConnections := m.halfOpenConnections - 1, bannedPeers := bans } id conn
    exact ⟨bans, closed, conns, hlimits⟩

theorem refuse_inv {refused : Bool} (h : m.refuse conn = (refused, m')) :
    ∃ bans closed, m' = { m with bannedPeers := bans, closed := closed } := by
  unfold refuse at h
  split at h
  · next m₁ heq =>
    obtain ⟨bans, rfl⟩ := isBanned_inv heq
    exact ⟨bans, _, (Prod.mk.inj h).2.symm⟩
  · next m₁ heq =>
    obtain ⟨bans, rfl⟩ := isBanned_inv heq
    split at h
    · exact ⟨bans, _, (Prod.mk.inj h).2.symm⟩
    · exact ⟨bans, m.closed, (Prod.mk.inj h).2.symm⟩

theorem addConnection_eq (m : PeerManager) (id : Bytes) (conn : Conn) :
    ∃ bans closed conns, (m.addConnection id conn).2 =
      { m with
        halfOpenConnections := m.halfOpenConnections - if (m.refuse conn).1 then 0 else 1
        bannedPeers := bans
        closed := closed
        activeConnections := conns } := by
  unfold addConnection
  split
  · next m' heq =>
    obtain ⟨bans, closed, rfl⟩ := refuse_inv heq
    exact ⟨bans, closed, m.activeConnections, by simp [heq]⟩
  · next m' heq =>
    obtain ⟨bans, closed, rfl⟩ := refuse_inv heq
    obtain ⟨bans, closed, conns, hlocked⟩ := addLocked_eq
      { m with bannedPeers := bans, closed := closed } id conn
    exact ⟨bans, closed, conns, by simp [heq, hlocked]⟩

theorem refuse_fst :
    (m.refuse conn).1 = false ↔ (m.isBanned conn.ip).1 = false ∧ m.shuttingDown = false := by
  unfold refuse
  split
  · next m' heq => simp [heq]
  · next m' heq =>
    obtain ⟨bans, rfl⟩ := isBanned_inv heq
    cases hup : m.shuttingDown <;> simp [heq]

theorem reportMisbehavior_eq (m : PeerManager) (count : PeerMisbehavior → PeerMisbehavior)
    (peerAddr : Bytes) :
    ∃ bans misbehavior closed conns, m.reportMisbehavior count peerAddr =
      { m with
        bannedPeers := bans
        peerMisbehavior := misbehavior
        closed := closed
        activeConnections := conns } := by
  simp only [reportMisbehavior]
  split
  · exact ⟨_, _, _, _, rfl⟩
  · exact ⟨_, _, _, _, rfl⟩

/-! ## Removing connections -/

theorem removeConnection_eq (m : PeerManager) (id : Bytes) (conn : Option Conn) :
    ∃ conns : OrdMap Bytes Conn, conns.entries.Sublist m.activeConnections.entries ∧
      m.removeConnection id conn = { m with activeConnections := conns } := by
  unfold removeConnection
  split
  · exact ⟨_, m.activeConnections.entries_erase_sublist id, rfl⟩
  · split
    · exact ⟨_, m.activeConnections.entries_erase_sublist id, rfl⟩
    · exact ⟨m.activeConnections, List.Sublist.refl _, rfl⟩

theorem get?_closeFrom (m : PeerManager) (ip id : Bytes) :
    (m.closeFrom ip).activeConnections.get? id =
      (m.activeConnections.get? id).filter fun conn => conn.ip ≠ ip := by
  unfold closeFrom
  rw [get?_foldl_erase]
  cases hget : m.activeConnections.get? id with
  | none => simp
  | some conn =>
    have hmem : id ∈ (m.activeConnections.entries.filter fun e => e.2.ip = ip).map Prod.fst ↔
        conn.ip = ip := by
      simp only [mem_map, mem_filter, decide_eq_true_eq]
      constructor
      · rintro ⟨⟨id', conn'⟩, ⟨hentry, hip⟩, rfl⟩
        rw [mem_entries] at hentry
        rw [hget, Option.some.injEq] at hentry
        rw [hentry]
        exact hip
      · intro hip
        exact ⟨(id, conn), ⟨(mem_entries _).mpr hget, hip⟩, rfl⟩
    by_cases hip : conn.ip = ip
    · rw [if_pos (hmem.mpr hip), Option.filter_some]
      simp [hip]
    · rw [if_neg (mt hmem.mp hip), Option.filter_some]
      simp [hip]

variable {id : Bytes} {e : Bytes × Conn}

theorem ip_ne_of_mem_closeFrom (he : e ∈ (m.closeFrom ip).activeConnections.entries) :
    e.2.ip ≠ ip := by
  have hget := (mem_entries _).mp he
  rw [get?_closeFrom] at hget
  simpa using (Option.filter_eq_some_iff.mp hget).2

theorem closeFrom_sublist (m : PeerManager) (ip : Bytes) :
    (m.closeFrom ip).activeConnections.entries.Sublist m.activeConnections.entries := by
  have hfold : ∀ (l : List (Bytes × Conn)) (conns : OrdMap Bytes Conn),
      (l.foldl (fun conns e => conns.erase e.1) conns).entries.Sublist conns.entries := by
    intro l
    induction l with
    | nil => exact fun conns => List.Sublist.refl _
    | cons e l ih => exact fun conns => (ih _).trans (conns.entries_erase_sublist e.1)
  exact hfold _ m.activeConnections

theorem reportMisbehavior_connections (m : PeerManager) (count : PeerMisbehavior → PeerMisbehavior)
    (peerAddr : Bytes) :
    (m.reportMisbehavior count peerAddr).activeConnections = m.activeConnections ∨
      (m.reportMisbehavior count peerAddr).activeConnections =
          (m.closeFrom (extractIpFromAddr peerAddr)).activeConnections ∧
        (m.reportMisbehavior count peerAddr).bannedPeers.get? (extractIpFromAddr peerAddr) =
          some ⟨m.now, m.now + banDuration⟩ := by
  simp only [reportMisbehavior]
  split
  · exact .inr ⟨rfl, by simp [banPeerByIp, closeFrom, recordBan, get?_insert]⟩
  · exact .inl rfl

/-! ## The bans that have not expired -/

section

variable (hban : m.bannedPeers.get? ip = some ban) (hrunning : m.now < ban.expiryTime)

include hban hrunning

theorem banCleanup_bannedPeers : m.banCleanup.bannedPeers.get? ip = some ban := by
  unfold banCleanup
  rw [get?_foldl_erase, if_neg ?_]
  · exact hban
  · simp only [mem_map, mem_filter, decide_eq_true_eq]
    rintro ⟨⟨ip', ban'⟩, ⟨hentry, hexpired⟩, rfl⟩
    rw [mem_entries, hban, Option.some.injEq] at hentry
    rw [hentry] at hrunning
    exact absurd hexpired (not_le.mpr hrunning)

theorem refuse_bannedPeers : (m.refuse conn).2.bannedPeers.get? ip = some ban := by
  have hkept := isBanned_bannedPeers conn.ip hban hrunning
  unfold refuse
  split
  · next m' heq =>
    rw [heq] at hkept
    exact hkept
  · next m' heq =>
    rw [heq] at hkept
    split <;> exact hkept

theorem addLocked_bannedPeers : (m.addLocked id conn).2.bannedPeers.get? ip = some ban := by
  have hkept : (m.releaseHalfOpen.isBanned conn.ip).2.bannedPeers.get? ip = some ban := by
    rw [releaseHalfOpen_eq]
    exact isBanned_bannedPeers conn.ip hban hrunning
  unfold addLocked
  split
  · next m' heq =>
    rw [heq] at hkept
    exact hkept
  · next m' heq =>
    rw [heq] at hkept
    obtain ⟨closed, conns, hlimits⟩ := m'.checkLimits_eq id conn
    rw [hlimits]
    exact hkept

end

/-! ## `add_connection` -/

inductive Added (m : PeerManager) (id : Bytes) (conn : Conn) : Bool → OrdMap Bytes Conn → Prop
  | refused : Added m id conn false m.activeConnections
  | room (hip : m.countFrom conn.ip < m.maxConnectionsPerIp)
      (htotal : m.connectionCount < m.maxTotalConnections) :
      Added m id conn true (m.activeConnections.insert id conn)
  | evicted (worst : Conn) (hip : m.countFrom conn.ip < m.maxConnectionsPerIp)
      (htotal : m.connectionCount ≥ m.maxTotalConnections) (hworst : m.findWorstPeer = some worst) :
      Added m id conn true ((m.activeConnections.erase worst.peerId).insert id conn)

variable {added : Bool} {conns : OrdMap Bytes Conn}

theorem Added.mem (h : Added m id conn added conns) (he : e ∈ conns.entries) :
    (added = true ∧ e = (id, conn)) ∨ e ∈ m.activeConnections.entries := by
  have hinsert : ∀ part : OrdMap Bytes Conn,
      part.entries.Sublist m.activeConnections.entries → e ∈ (part.insert id conn).entries →
      e = (id, conn) ∨ e ∈ m.activeConnections.entries := by
    intro part hpart hmem
    rcases mem_cons.mp ((part.entries_insert_perm id conn).subset hmem) with heq | hold
    · exact .inl heq
    · exact .inr (hpart.subset ((part.entries_erase_sublist id).subset hold))
  cases h with
  | refused => exact .inr he
  | room hip htotal => exact (hinsert _ (List.Sublist.refl _) he).imp_left fun heq => ⟨rfl, heq⟩
  | evicted worst hip htotal hworst =>
    exact (hinsert _ (m.activeConnections.entries_erase_sublist _) he).imp_left
      fun heq => ⟨rfl, heq⟩

theorem Added.congr (hactive : m'.activeConnections = m.activeConnections)
    (htraffic : m'.traffic = m.traffic) (htotal : m'.maxTotalConnections = m.maxTotalConnections)
    (hper : m'.maxConnectionsPerIp = m.maxConnectionsPerIp) (h : Added m' id conn added conns) :
    Added m id conn added conns := by
  have hcount : m'.countFrom conn.ip = m.countFrom conn.ip := by
    unfold countFrom
    rw [hactive]
  have htotal' : m'.connectionCount = m.connectionCount := by
    unfold connectionCount
    rw [hactive]
  cases h with
  | refused => exact hactive ▸ .refused
  | room hip hroom =>
    rw [hactive]
    exact .room (hcount ▸ hper ▸ hip) (htotal' ▸ htotal ▸ hroom)
  | evicted worst hip hfull hworst =>
    rw [hactive]
    exact .evicted worst (hcount ▸ hper ▸ hip) (htotal' ▸ htotal ▸ hfull)
      (findWorstPeer_congr hactive htraffic ▸ hworst)

theorem checkLimits_added (m : PeerManager) (id : Bytes) (conn : Conn) :
    Added m id conn (m.checkLimits id conn).1 (m.checkLimits id conn).2.activeConnections := by
  unfold checkLimits
  split
  · exact .refused
  · next hip =>
    rw [not_le] at hip
    split
    · next hfull =>
      cases hworst : m.findWorstPeer with
      | none => exact .refused
      | some worst =>
        rw [register_activeConnections]
        exact .evicted worst hip hfull hworst
    · next hroom =>
      rw [register_activeConnections]
      exact .room hip (not_le.mp hroom)

theorem addLocked_added (m : PeerManager) (id : Bytes) (conn : Conn) :
    Added m id conn (m.addLocked id conn).1 (m.addLocked id conn).2.activeConnections := by
  unfold addLocked
  rw [releaseHalfOpen_eq]
  split
  · next m' heq =>
    obtain ⟨bans, rfl⟩ := isBanned_inv heq
    exact .refused
  · next m' heq =>
    obtain ⟨bans, rfl⟩ := isBanned_inv heq
    refine Added.congr ?_ ?_ ?_ ?_ (checkLimits_added _ id conn) <;> rfl

theorem addLocked_free (h : (m.addLocked id conn).1 = true) : (m.isBanned conn.ip).1 = false := by
  have hsame : (m.releaseHalfOpen.isBanned conn.ip).1 = true ↔ (m.isBanned conn.ip).1 = true := by
    rw [releaseHalfOpen_eq, isBanned_fst, isBanned_fst]
  unfold addLocked at h
  split at h
  · exact nomatch h
  · next m' heq =>
    rw [heq] at hsame
    simpa using hsame

theorem addConnection_added (m : PeerManager) (id : Bytes) (conn : Conn) :
    Added m id conn (m.addConnection id conn).1 (m.addConnection id conn).2.activeConnections := by
  unfold addConnection
  split
  · next m' heq =>
    obtain ⟨bans, closed, rfl⟩ := refuse_inv heq
    exact .refused
  · next m' heq =>
    obtain ⟨bans, closed, rfl⟩ := refuse_inv heq
    refine Added.congr ?_ ?_ ?_ ?_ (addLocked_added _ id conn) <;> rfl

end PeerManager

end P2P
