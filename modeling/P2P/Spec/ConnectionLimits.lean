import P2P.Spec.PeerManager

/-!
# The limits on connections

`add_connection` admits a connection when there are fewer than `max_connections_per_ip_` from its
address; when the manager is full the worst one makes room.
-/

namespace P2P

open OrdMap

/-- What calls keep: the limits, and each entry is an earlier connection under its peer's id. -/
structure Registry.Within (maxTotal maxPerIp : Nat) (r : Registry) : Prop where
  maxTotal_eq : r.manager.maxTotalConnections = maxTotal
  maxPerIp_eq : r.manager.maxConnectionsPerIp = maxPerIp
  keyed : ∀ e ∈ r.manager.activeConnections.entries, e.2.peerId = e.1
  made : ∀ e ∈ r.manager.activeConnections.entries, e.2.object < r.objects
  total : r.manager.connectionCount ≤ maxTotal
  perIp : ∀ ip, r.manager.countFrom ip ≤ maxPerIp

namespace Registry

variable {maxTotal maxPerIp : Nat} {r : Registry}

theorem within_start (maxTotal maxPerIp : Nat) :
    (start maxTotal maxPerIp).Within maxTotal maxPerIp where
  maxTotal_eq := rfl
  maxPerIp_eq := rfl
  keyed := nofun
  made := nofun
  total := Nat.zero_le _
  perIp _ := Nat.zero_le _

variable {m : PeerManager}

theorem Within.of_sublist (h : r.Within maxTotal maxPerIp)
    (hsub : m.activeConnections.entries.Sublist r.manager.activeConnections.entries)
    (htotal : m.maxTotalConnections = r.manager.maxTotalConnections)
    (hper : m.maxConnectionsPerIp = r.manager.maxConnectionsPerIp) :
    Within maxTotal maxPerIp { r with manager := m } where
  maxTotal_eq := htotal.trans h.maxTotal_eq
  maxPerIp_eq := hper.trans h.maxPerIp_eq
  keyed e he := h.keyed e (hsub.subset he)
  made e he := h.made e (hsub.subset he)
  total := hsub.length_le.trans h.total
  perIp ip := hsub.countP_le.trans (h.perIp ip)

variable {conns : OrdMap Bytes Conn} {id : Bytes} {conn : Conn}

theorem length_evict_insert {worst : Conn} (hworst : conns.get? worst.peerId = some worst) :
    ((conns.erase worst.peerId).insert id conn).entries.length ≤ conns.entries.length := by
  have herase := length_erase hworst
  have hsub := ((conns.erase worst.peerId).entries_erase_sublist id).length_le
  rw [length_insert]
  omega

variable {part : OrdMap Bytes Conn}

theorem countP_insert_le (hpart : part.entries.Sublist conns.entries) (id : Bytes) (conn : Conn)
    (ip : Bytes) :
    ((part.insert id conn).entries.countP fun e => e.2.ip = ip) ≤
      (conns.entries.countP fun e => e.2.ip = ip) + if conn.ip = ip then 1 else 0 := by
  rw [countP_insert]
  have hle : ((part.erase id).entries.countP fun e => e.2.ip = ip) ≤
      conns.entries.countP fun e => e.2.ip = ip :=
    ((part.entries_erase_sublist id).trans hpart).countP_le
  by_cases hip : conn.ip = ip
  · simp only [hip, decide_true, if_true]
    omega
  · simp only [hip, decide_false, if_false, Bool.false_eq_true]
    omega

section

variable (h : r.Within maxTotal maxPerIp)

include h

theorem Within.insert (hactive : m.activeConnections = part.insert id conn)
    (hpart : part.entries.Sublist r.manager.activeConnections.entries)
    (hmaxTotal : m.maxTotalConnections = maxTotal) (hmaxPerIp : m.maxConnectionsPerIp = maxPerIp)
    (hid : conn.peerId = id) (hmade : conn.object = r.objects)
    (htotal : (part.insert id conn).entries.length ≤ maxTotal)
    (hip : r.manager.countFrom conn.ip < maxPerIp) :
    Within maxTotal maxPerIp ⟨m, r.objects + 1⟩ := by
  -- an entry is the new one or an old one
  have hcases : ∀ e ∈ m.activeConnections.entries,
      e = (id, conn) ∨ e ∈ r.manager.activeConnections.entries := by
    intro e he
    rw [hactive] at he
    rcases List.mem_cons.mp ((part.entries_insert_perm id conn).subset he) with heq | hmem
    · exact .inl heq
    · exact .inr (hpart.subset ((part.entries_erase_sublist id).subset hmem))
  refine ⟨hmaxTotal, hmaxPerIp, ?_, ?_, ?_, ?_⟩
  · intro e he
    rcases hcases e he with rfl | hold
    · exact hid
    · exact h.keyed e hold
  · intro e he
    rcases hcases e he with rfl | hold
    · show conn.object < r.objects + 1
      omega
    · exact Nat.lt_succ_of_lt (h.made e hold)
  · show m.activeConnections.entries.length ≤ maxTotal
    rw [hactive]
    exact htotal
  · intro ip
    have hcount := countP_insert_le hpart id conn ip
    have hold := h.perIp ip
    unfold PeerManager.countFrom at hold hip ⊢
    rw [hactive]
    split at hcount
    · next heq =>
      rw [heq] at hip
      omega
    · omega

theorem Within.add (peerId peerAddr : Bytes) (traffic : Traffic) :
    (r.add peerId peerAddr traffic).2.Within maxTotal maxPerIp := by
  obtain ⟨bans, closed, conns, heq⟩ :=
    (r.allocate traffic).addConnection_eq peerId (r.newConn peerId peerAddr)
  have hadded := (r.allocate traffic).addConnection_added peerId (r.newConn peerId peerAddr)
  rw [heq] at hadded
  have hsnd : (r.add peerId peerAddr traffic).2 =
      ⟨((r.allocate traffic).addConnection peerId (r.newConn peerId peerAddr)).2,
        r.objects + 1⟩ := rfl
  rw [hsnd, heq]
  generalize ((r.allocate traffic).addConnection peerId (r.newConn peerId peerAddr)).1 = added
    at hadded
  cases hadded with
  | refused =>
    exact ⟨h.maxTotal_eq, h.maxPerIp_eq, h.keyed, fun e he => Nat.lt_succ_of_lt (h.made e he),
      h.total, h.perIp⟩
  | room hip htotal =>
    refine h.insert rfl (List.Sublist.refl _) h.maxTotal_eq h.maxPerIp_eq rfl rfl ?_
      (h.maxPerIp_eq ▸ hip)
    have hsub := (r.manager.activeConnections.entries_erase_sublist peerId).length_le
    have hlt : r.manager.connectionCount < maxTotal := h.maxTotal_eq ▸ htotal
    rw [length_insert]
    exact Nat.succ_le_of_lt (Nat.lt_of_le_of_lt hsub hlt)
  | evicted worst hip htotal hworst =>
    obtain ⟨id, hget⟩ := PeerManager.findWorstPeer_mem hworst
    -- the worst connection stands under the id of its peer, so it is the one that goes
    have hid : worst.peerId = id := h.keyed (id, worst) ((mem_entries _).mpr hget)
    refine h.insert rfl (r.manager.activeConnections.entries_erase_sublist _) h.maxTotal_eq
      h.maxPerIp_eq rfl rfl ?_ (h.maxPerIp_eq ▸ hip)
    exact (length_evict_insert (hid ▸ hget)).trans h.total

theorem Within.step (call : ManagerCall) : (r.step call).Within maxTotal maxPerIp := by
  cases call with
  | addConnection peerId peerAddr traffic => exact h.add peerId peerAddr traffic
  | removeConnection id conn =>
    obtain ⟨conns, hsub, heq⟩ := r.manager.removeConnection_eq id conn
    rw [Registry.step, heq]
    exact h.of_sublist hsub rfl rfl
  | banPeerByIp ip => exact h.of_sublist (PeerManager.closeFrom_sublist _ ip) rfl rfl
  | transfer | wait | cancel => exact h.of_sublist (List.Sublist.refl _) rfl rfl

theorem Within.run (calls : List ManagerCall) : (r.run calls).Within maxTotal maxPerIp := by
  induction calls generalizing r with
  | nil => exact h
  | cons call calls ih => exact ih (h.step call)

theorem Within.add_eq_true_iff (peerId peerAddr : Bytes) (traffic : Traffic) :
    (r.add peerId peerAddr traffic).1 = true ↔
      (r.add peerId peerAddr traffic).2.manager.activeConnections.get? peerId =
        some (r.newConn peerId peerAddr) := by
  have hadded := (r.allocate traffic).addConnection_added peerId (r.newConn peerId peerAddr)
  unfold Registry.add
  generalize (r.allocate traffic).addConnection peerId (r.newConn peerId peerAddr) = res at *
  obtain ⟨added, m⟩ := res
  show added = true ↔ m.activeConnections.get? peerId = some (r.newConn peerId peerAddr)
  generalize m.activeConnections = conns at hadded ⊢
  cases hadded with
  | refused =>
    refine ⟨nofun, fun hget => ?_⟩
    -- an entry that was there before is an older object
    have hlt : r.objects < r.objects :=
      h.made (peerId, r.newConn peerId peerAddr) ((mem_entries _).mpr hget)
    omega
  | room | evicted =>
    rw [get?_insert, if_pos rfl]
    exact ⟨fun _ => rfl, fun _ => rfl⟩

end

end Registry

/-- After every sequence of calls the limits are met, and the next `add_connection` returns `true`
    exactly when its connection is then registered. -/
theorem connection_limits (maxTotal maxPerIp : Nat) (calls : List ManagerCall) :
    ((Registry.start maxTotal maxPerIp).run calls).manager.connectionCount ≤ maxTotal ∧
    (∀ ip, ((Registry.start maxTotal maxPerIp).run calls).manager.countFrom ip ≤ maxPerIp) ∧
    ∀ peerId peerAddr traffic,
      (((Registry.start maxTotal maxPerIp).run calls).add peerId peerAddr traffic).1 = true ↔
        (((Registry.start maxTotal maxPerIp).run calls).add peerId peerAddr
            traffic).2.manager.activeConnections.get? peerId =
          some (((Registry.start maxTotal maxPerIp).run calls).newConn peerId peerAddr) := by
  have h := (Registry.within_start maxTotal maxPerIp).run calls
  exact ⟨h.total, h.perIp, h.add_eq_true_iff⟩

/-- A manager for two connections: the third makes the one without traffic go, and a second one from
    the same address is refused. -/
example :
    (((Registry.start 2 1).run
        [.addConnection [1] (.ascii "a:1") ⟨5, 5⟩, .addConnection [2] (.ascii "b:1") {},
          .addConnection [3] (.ascii "c:1") {},
          .addConnection [4] (.ascii "a:2") {}]).manager.activeConnections.entries.map
      fun e => (e.1, e.2.object)) = [([1], 0), ([3], 2)] := by
  decide +kernel

end P2P
