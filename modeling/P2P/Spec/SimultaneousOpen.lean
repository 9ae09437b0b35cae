import P2P.Native.SimultaneousOpen
import P2P.Spec.Connections

/-!
# Simultaneous open

The peer with the lesser id keeps the connection it has handled first and drops the other without
closing it. The other peer closes the one it has handled first, and the end of that one removes what
it has registered since.
-/

namespace P2P

open OpenStep OrdMap PeerManager List Function

namespace PeerManager

variable {m : PeerManager} {id : Bytes} {conn : Conn}

theorem addConnection_unbanned (hbans : m.bannedPeers = empty) (hup : m.shuttingDown = false) :
    m.addConnection id conn =
      { m with halfOpenConnections := m.halfOpenConnections - 1 }.checkLimits id conn := by
  have hfree : ∀ m' : PeerManager, m'.bannedPeers = empty → m'.isBanned conn.ip = (false, m') := by
    intro m' hm'
    unfold isBanned
    rw [hm', get?_empty]
  have hrefuse : m.refuse conn = (false, m) := by
    unfold refuse
    rw [hfree m hbans]
    exact if_neg (by rw [hup]; exact Bool.false_ne_true)
  unfold addConnection
  rw [hrefuse]
  show m.addLocked id conn = _
  unfold addLocked
  rw [releaseHalfOpen_eq, hfree { m with halfOpenConnections := m.halfOpenConnections - 1 } hbans]

theorem checkLimits_empty (hactive : m.activeConnections = empty) :
    m.checkLimits id conn =
      if 0 < m.maxConnectionsPerIp ∧ 0 < m.maxTotalConnections then
        (true, { m with activeConnections := empty.insert id conn })
      else (false, m.close conn) := by
  have hip : m.countFrom conn.ip = 0 := by rw [countFrom, hactive]; rfl
  have htotal : m.connectionCount = 0 := by rw [connectionCount, hactive]; rfl
  have hworst : m.findWorstPeer = none := by rw [findWorstPeer, hactive]; rfl
  have hregister : m.register id conn = { m with activeConnections := empty.insert id conn } := by
    unfold register
    rw [hactive]
    exact congrArg (fun conns => { m with activeConnections := conns.insert id conn }) hactive
  unfold checkLimits
  rw [hip, htotal, hworst, hregister]
  by_cases hroom : 0 < m.maxConnectionsPerIp
  · by_cases hroom' : 0 < m.maxTotalConnections
    · rw [if_neg (not_le.mpr hroom), if_neg (not_le.mpr hroom'), if_pos ⟨hroom, hroom'⟩]
    · rw [if_neg (not_le.mpr hroom), if_pos (not_lt.mp hroom'), if_neg fun h => hroom' h.2]
  · rw [if_pos (not_lt.mp hroom), if_neg fun h => hroom h.1]

theorem closed_subset_register (m : PeerManager) (id : Bytes) (conn : Conn) :
    m.closed ⊆ (m.register id conn).closed := by
  unfold register
  split
  · exact subset_cons_self _ _
  · exact Subset.refl _

theorem closed_subset_checkLimits (m : PeerManager) (id : Bytes) (conn : Conn) :
    m.closed ⊆ (m.checkLimits id conn).2.closed := by
  unfold checkLimits
  split
  · exact subset_cons_self _ _
  split
  · split
    · exact subset_cons_self _ _
    · next worst _ =>
      exact Subset.trans (subset_cons_self _ _) (closed_subset_register { m.close worst with
        activeConnections := m.activeConnections.erase worst.peerId } id conn)
  · exact closed_subset_register m id conn

end PeerManager

/-! ## The two peers -/

theorem Side.eq_or_eq_other (s t : Side) : s = t ∨ s = t.other := by
  cases s <;> cases t <;> decide

theorem Side.other_ne (s : Side) : s.other ≠ s := by
  cases s <;> decide

@[simp] theorem Side.other_other (s : Side) : s.other.other = s := by
  cases s <;> rfl

theorem Link.object_injective : Function.Injective Link.object := by
  intro c c' h
  cases c <;> cases c' <;> first | rfl | cases h

theorem Link.eq_of_ne {c c' d : Link} (h : c ≠ d) (h' : c' ≠ d) : c = c' := by
  cases c <;> cases c' <;> cases d <;> first | rfl | exact absurd rfl h | exact absurd rfl h'

def OpenConfig.registry (cfg : OpenConfig) (s : Side) : Option Link → OrdMap Bytes Conn
  | none => empty
  | some c => empty.insert (cfg.peerId s.other) (cfg.conn s c)

abbrev OpenConfig.Admits (cfg : OpenConfig) (s : Side) : Prop :=
  0 < cfg.maxPerIp s ∧ 0 < cfg.maxTotal s

namespace OpenStep

/-! ## One peer -/

/-- A manager that knows one peer: no bans, no shutdown, its limits, and the kept connection. -/
structure Keeps (cfg : OpenConfig) (s : Side) (m : PeerManager) (kept : Option Link) : Prop where
  bans : m.bannedPeers = empty
  up : m.shuttingDown = false
  maxTotal : m.maxTotalConnections = cfg.maxTotal s
  maxPerIp : m.maxConnectionsPerIp = cfg.maxPerIp s
  active : m.activeConnections = cfg.registry s kept

variable {cfg : OpenConfig} {s : Side} {m : PeerManager} {c c₀ : Link} {kept : Option Link}

theorem getConnection_registry (h : Keeps cfg s m kept) :
    m.getConnection (cfg.peerId s.other) = kept.map (cfg.conn s) := by
  unfold getConnection
  rw [h.active]
  cases kept with
  | none => rfl
  | some c => rw [OpenConfig.registry, get?_insert, if_pos rfl]; rfl

theorem Keeps.handle_none (h : Keeps cfg s m none) (c : Link) :
    let m' := { m with halfOpenConnections := m.halfOpenConnections - 1 }
    m.handleNewConnection (cfg.peerId s) (cfg.conn s c) =
      if cfg.Admits s then
        (true, { m' with activeConnections := cfg.registry s (some c) })
      else (false, m'.close (cfg.conn s c)) := by
  intro m'
  have hip : m'.maxConnectionsPerIp = cfg.maxPerIp s := h.maxPerIp
  have htotal : m'.maxTotalConnections = cfg.maxTotal s := h.maxTotal
  unfold OpenConfig.Admits
  rw [handleNewConnection_of_none (getConnection_registry h), ← hip, ← htotal,
    addConnection_unbanned h.bans h.up]
  exact checkLimits_empty h.active

theorem Keeps.first (h : Keeps cfg s m none) (hadmits : cfg.Admits s) :
    Keeps cfg s (m.handleNewConnection (cfg.peerId s) (cfg.conn s c)).2 (some c) ∧
      (m.handleNewConnection (cfg.peerId s) (cfg.conn s c)).2.closed = m.closed := by
  rw [h.handle_none, if_pos hadmits]
  exact ⟨⟨h.bans, h.up, h.maxTotal, h.maxPerIp, rfl⟩, rfl⟩

theorem Keeps.refuse (h : Keeps cfg s m none) (hfull : ¬ cfg.Admits s) :
    Keeps cfg s (m.handleNewConnection (cfg.peerId s) (cfg.conn s c)).2 none := by
  rw [h.handle_none, if_neg hfull]
  exact ⟨h.bans, h.up, h.maxTotal, h.maxPerIp, h.active⟩

theorem Keeps.drop (h : Keeps cfg s m (some c₀)) (hlt : cfg.peerId s < cfg.peerId s.other) :
    Keeps cfg s (m.handleNewConnection (cfg.peerId s) (cfg.conn s c)).2 (some c₀) ∧
      (m.handleNewConnection (cfg.peerId s) (cfg.conn s c)).2.closed = m.closed := by
  have hcontains : m.containsPeer (cfg.peerId s.other) = true :=
    Option.isSome_iff_exists.mpr ⟨_, getConnection_registry h⟩
  rw [handleNewConnection_drop hcontains hlt, releaseHalfOpen_eq]
  exact ⟨⟨h.bans, h.up, h.maxTotal, h.maxPerIp, h.active⟩, rfl⟩

theorem Keeps.replace (h : Keeps cfg s m (some c₀)) (hlt : ¬ cfg.peerId s < cfg.peerId s.other)
    (hne : c₀ ≠ c) :
    c₀.object ∈ (m.handleNewConnection (cfg.peerId s) (cfg.conn s c)).2.closed ∧
      (m.handleNewConnection (cfg.peerId s) (cfg.conn s c)).2.shuttingDown = false := by
  rw [handleNewConnection_replace (getConnection_registry h) hlt (Link.object_injective.ne hne),
    addConnection_unbanned (m := m.close (cfg.conn s c₀)) h.bans h.up]
  refine ⟨closed_subset_checkLimits _ _ _ (mem_cons_self ..), ?_⟩
  obtain ⟨closed, conns, heq⟩ := checkLimits_eq
    { m.close (cfg.conn s c₀) with halfOpenConnections := m.halfOpenConnections - 1 }
    (cfg.peerId s.other) (cfg.conn s c)
  exact (congrArg shuttingDown heq).trans h.up

theorem onDisconnect_up (conn : Conn) (hup : m.shuttingDown = false) :
    m.onDisconnect conn = { m with
      closed := conn.object :: m.closed
      activeConnections := m.activeConnections.erase conn.peerId } :=
  if_neg (by rw [hup]; exact Bool.false_ne_true)

theorem Keeps.disconnect (h : Keeps cfg s m kept) (c : Link) :
    Keeps cfg s (m.onDisconnect (cfg.conn s c)) none := by
  rw [onDisconnect_up _ h.up]
  refine ⟨h.bans, h.up, h.maxTotal, h.maxPerIp, ?_⟩
  show m.activeConnections.erase (cfg.peerId s.other) = empty
  rw [h.active]
  refine eq_empty fun id => ?_
  rw [get?_erase]
  cases kept with
  | none => exact ite_self _
  | some c =>
    rw [OpenConfig.registry, get?_insert]
    split <;> rfl

theorem handled_cases {handled : List Link} (hnodup : handled.Nodup) (hc : c ∉ handled) :
    handled = [] ∨ ∃ c₀, c₀ ≠ c ∧ handled = [c₀] := by
  cases handled with
  | nil => exact .inl rfl
  | cons c₀ rest =>
    cases rest with
    | nil => exact .inr ⟨c₀, fun heq => hc (heq ▸ mem_singleton.mpr rfl), rfl⟩
    | cons c₁ rest =>
      -- two connections that are not `c` are the same
      have heq : c₀ = c₁ := Link.eq_of_ne (d := c) (by rintro rfl; simp at hc)
        (by rintro rfl; simp at hc)
      simp [heq] at hnodup

/-! ## Both peers -/

/-- What a run does to the peer `hi` with the greater id, and to the other. -/
structure Opened (cfg : OpenConfig) (hi : Side) (es : List OpenStep) (low high : OpenEnd) :
    Prop where
  nodup : high.handled.Nodup
  up : high.manager.shuttingDown = false
  keeps_low : ∃ kept, Keeps cfg hi.other low.manager kept
  /-- Until `hi` has handled both connections none is closed. -/
  early : high.handled.length < 2 → Keeps cfg hi high.manager high.handled.head? ∧
    low.manager.closed = [] ∧ high.manager.closed = [] ∧ ∀ s c, .disconnect s c ∉ es
  late : ∀ u v, high.handled = [u, v] → u.object ∈ high.manager.closed ∧
    (.disconnect hi u ∈ es → high.manager.getConnection (cfg.peerId hi.other) = none)

variable {hi : Side} {es : List OpenStep} {low high : OpenEnd}

section

variable (h : Opened cfg hi es low high) (hids : cfg.peerId hi.other < cfg.peerId hi)
  (hadmits : ∀ s, cfg.Admits s)
include h hids hadmits

theorem Opened.handle_low (c : Link) :
    Opened cfg hi (es ++ [.handle hi.other c]) { low with
      manager := (low.manager.handleNewConnection (cfg.peerId hi.other) (cfg.conn hi.other c)).2
      handled := low.handled ++ [c] } high := by
  obtain ⟨kept, hkeeps⟩ := h.keeps_low
  -- it never closes a connection
  obtain ⟨hkeeps', hclosed⟩ : (∃ kept', Keeps cfg hi.other (low.manager.handleNewConnection
      (cfg.peerId hi.other) (cfg.conn hi.other c)).2 kept') ∧ (low.manager.handleNewConnection
      (cfg.peerId hi.other) (cfg.conn hi.other c)).2.closed = low.manager.closed := by
    cases kept with
    | none =>
      have hfirst := hkeeps.first (c := c) (hadmits _)
      exact ⟨⟨_, hfirst.1⟩, hfirst.2⟩
    | some c₀ =>
      have hdrop := hkeeps.drop (c := c) (by rwa [hi.other_other])
      exact ⟨⟨_, hdrop.1⟩, hdrop.2⟩
  refine ⟨h.nodup, h.up, hkeeps', fun hlt => ?_, fun u v huv => ?_⟩
  · obtain ⟨hhigh, hlow, hopen, hes⟩ := h.early hlt
    refine ⟨hhigh, hclosed.trans hlow, hopen, fun s c' hmem => ?_⟩
    exact hes s c' (by simpa using hmem)
  · obtain ⟨hu, hgone⟩ := h.late u v huv
    exact ⟨hu, fun hmem => hgone (by simpa using hmem)⟩

theorem Opened.handle_high (hc : c ∉ high.handled) :
    Opened cfg hi (es ++ [.handle hi c]) low { high with
      manager := (high.manager.handleNewConnection (cfg.peerId hi) (cfg.conn hi c)).2
      handled := high.handled ++ [c] } := by
  rcases handled_cases h.nodup hc with hnil | ⟨c₀, hne, hone⟩
  · obtain ⟨hhigh, hlow, hopen, hes⟩ := h.early (by simp [hnil])
    rw [hnil] at hhigh
    obtain ⟨hfirst, hclosed⟩ := hhigh.first (c := c) (hadmits _)
    refine ⟨by simp [hnil], hfirst.up, h.keeps_low, fun _ => ?_, fun u v huv => ?_⟩
    · refine ⟨by simpa [hnil] using hfirst, hlow, hclosed.trans hopen, fun s c' hmem => ?_⟩
      exact hes s c' (by simpa using hmem)
    · simp [hnil] at huv
  · obtain ⟨hhigh, -, -, hes⟩ := h.early (by simp [hone])
    rw [hone] at hhigh
    obtain ⟨hclosed, hup⟩ := hhigh.replace (not_lt_of_gt hids) hne
    refine ⟨by simpa [hone] using hne, hup, h.keeps_low, fun hlt => ?_, fun u v huv => ?_⟩
    · simp [hone] at hlt
    · simp only [hone, singleton_append, cons.injEq, and_true] at huv
      rw [← huv.1]
      exact ⟨hclosed, fun hmem => absurd (by simpa using hmem) (hes hi c₀)⟩

end

theorem Opened.disconnect (h : Opened cfg hi es low high)
    (hclosed : c.object ∈ low.manager.closed ∨ c.object ∈ high.manager.closed) :
    Opened cfg hi (es ++ [.disconnect hi.other c])
      { low with manager := low.manager.onDisconnect (cfg.conn hi.other c) } high ∧
    Opened cfg hi (es ++ [.disconnect hi c]) low
      { high with manager := high.manager.onDisconnect (cfg.conn hi c) } := by
  have hboth : ¬ high.handled.length < 2 := by
    intro hlt
    obtain ⟨-, hlow, hopen, -⟩ := h.early hlt
    simp [hlow, hopen] at hclosed
  obtain ⟨kept, hkeeps⟩ := h.keeps_low
  constructor
  · refine ⟨h.nodup, h.up, ⟨_, hkeeps.disconnect c⟩, fun hlt => absurd hlt hboth, fun u v huv => ?_⟩
    obtain ⟨hu, hgone⟩ := h.late u v huv
    refine ⟨hu, fun hmem => hgone ?_⟩
    simpa [hi.other_ne.symm] using hmem
  · refine ⟨h.nodup, ?_, ⟨_, hkeeps⟩, fun hlt => absurd hlt hboth, fun u v huv => ?_⟩
    · rw [onDisconnect_up _ h.up]
      exact h.up
    · obtain ⟨hu, -⟩ := h.late u v huv
      dsimp only
      rw [onDisconnect_up _ h.up]
      refine ⟨mem_cons_of_mem _ hu, fun _ => ?_⟩
      -- whatever connection the entry holds, it is erased
      exact (get?_erase ..).trans (if_pos rfl)

theorem Opened.step (hids : cfg.peerId hi.other < cfg.peerId hi) (hadmits : ∀ s, cfg.Admits s)
    {p p' : Side → OpenEnd} {st : OpenStep} (hstep : step cfg p st = some p')
    (h : Opened cfg hi es (p hi.other) (p hi)) :
    Opened cfg hi (es ++ [st]) (p' hi.other) (p' hi) := by
  cases st with simp only [OpenStep.step] at hstep
  | handle s c =>
    split at hstep
    · cases hstep
    · next hc =>
      cases hstep
      rcases s.eq_or_eq_other hi with rfl | rfl
      · rw [update_self, update_of_ne s.other_ne]
        exact h.handle_high hids hadmits hc
      · rw [update_self, update_of_ne hi.other_ne.symm]
        exact h.handle_low hids hadmits c
  | disconnect s c =>
    split at hstep
    · next hclosed =>
      cases hstep
      rcases s.eq_or_eq_other hi with rfl | rfl
      · rw [update_self, update_of_ne s.other_ne]
        exact (h.disconnect hclosed.symm).2
      · rw [update_self, update_of_ne hi.other_ne.symm]
        rw [hi.other_other] at hclosed
        exact (h.disconnect hclosed).1
    · cases hstep

/-! ## Whole runs -/

variable {p : Side → OpenEnd}

end OpenStep

end P2P
