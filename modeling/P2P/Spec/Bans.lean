import P2P.Spec.PeerManager

/-!
# Bans and concurrent calls

`ban_peer_by_ip` records the ban under one lock and closes the connections from the address under
another.
-/

namespace P2P

open ManagerStep PeerManager Option

namespace ManagerRun

def expiryOf (r : ManagerRun) (ip : Bytes) : Option Nat :=
  (r.bans.find? (·.1 = ip)).map (·.2)

/-- The ban on an address that has been recorded last has not expired. -/
def InForce (r : ManagerRun) (ip : Bytes) : Prop := ∃ expiry ∈ r.expiryOf ip, r.manager.now < expiry

instance (r : ManagerRun) (ip : Bytes) : Decidable (r.InForce ip) :=
  inferInstanceAs (Decidable (∃ expiry ∈ r.expiryOf ip, r.manager.now < expiry))

/-- The manager remembers the bans that have not expired. -/
def Remembers (r : ManagerRun) : Prop :=
  ∀ ip, ∀ expiry ∈ r.expiryOf ip, r.manager.now < expiry →
    ∃ ban, r.manager.bannedPeers.get? ip = some ban ∧ ban.expiryTime = expiry

def Without (r : ManagerRun) (ip : Bytes) : Prop :=
  ∀ e ∈ r.manager.activeConnections.entries, e.2.ip ≠ ip

end ManagerRun

namespace ManagerStep

variable {r r' : ManagerRun} {st : ManagerStep}

section

variable (h : step r st = some r')

include h

theorem step_bans :
    r.manager.now ≤ r'.manager.now ∧
    ((r'.bans = r.bans ∧ ∀ ip ban, r.manager.bannedPeers.get? ip = some ban →
        r.manager.now < ban.expiryTime → r'.manager.bannedPeers.get? ip = some ban) ∨
      ∃ ip banTime, r'.bans = (ip, banTime + banDuration) :: r.bans ∧
        r'.manager.bannedPeers =
          r.manager.bannedPeers.insert ip ⟨banTime, banTime + banDuration⟩) := by
  cases st with
  | addConnection id conn =>
    have hkept : ∀ ip ban, r.manager.bannedPeers.get? ip = some ban →
        r.manager.now < ban.expiryTime →
        (r.manager.refuse conn).2.bannedPeers.get? ip = some ban :=
      fun _ _ hban hrunning => refuse_bannedPeers hban hrunning
    simp only [step] at h
    split at h
    -- refused or not, the ban check forgets expired bans only
    all_goals
      next m heq =>
      cases h
      obtain ⟨bans, closed, rfl⟩ := refuse_inv heq
      rw [heq] at hkept
      exact ⟨le_refl _, .inl ⟨rfl, hkept⟩⟩
  | addLocked i =>
    simp only [step] at h
    split at h
    · next id conn _ =>
      cases h
      obtain ⟨bans, closed, conns, heq⟩ := r.manager.addLocked_eq id conn
      refine ⟨by rw [heq], .inl ⟨rfl, fun ip ban hban hrunning => ?_⟩⟩
      exact addLocked_bannedPeers hban hrunning
    · cases h
  | banPeerByIp | transfer | cancel =>
    cases h
    exact ⟨le_refl _, .inl ⟨rfl, fun _ _ hban _ => hban⟩⟩
  | recordBan i =>
    simp only [step] at h
    split at h
    · next ip banTime _ =>
      cases h
      exact ⟨le_refl _, .inr ⟨ip, banTime, rfl, rfl⟩⟩
    · cases h
  | closeFrom i =>
    simp only [step] at h
    split at h
    · cases h
      exact ⟨le_refl _, .inl ⟨rfl, fun _ _ hban _ => hban⟩⟩
    · cases h
  | removeConnection id conn =>
    cases h
    obtain ⟨conns, -, heq⟩ := r.manager.removeConnection_eq id conn
    rw [heq]
    exact ⟨le_refl _, .inl ⟨rfl, fun _ _ hban _ => hban⟩⟩
  | banCleanup =>
    cases h
    exact ⟨le_refl _, .inl ⟨rfl, fun _ _ => banCleanup_bannedPeers⟩⟩
  | wait time =>
    cases h
    exact ⟨Nat.le_add_right _ _, .inl ⟨rfl, fun _ _ hban _ => hban⟩⟩

theorem step_connections :
    r'.manager.activeConnections.entries.Sublist r.manager.activeConnections.entries ∨
      ∃ conn : Conn, (r.manager.isBanned conn.ip).1 = false ∧
        ∀ e ∈ r'.manager.activeConnections.entries,
          e.2 = conn ∨ e ∈ r.manager.activeConnections.entries := by
  cases st with simp only [step] at h
  | addConnection id conn =>
    split at h
    all_goals
      next m heq =>
      cases h
      obtain ⟨bans, closed, rfl⟩ := refuse_inv heq
      exact .inl (List.Sublist.refl _)
  | addLocked i =>
    split at h
    · next id conn _ =>
      cases h
      have hadded := r.manager.addLocked_added id conn
      cases hres : (r.manager.addLocked id conn).1 with
      | true =>
        refine .inr ⟨conn, addLocked_free hres, fun e he => ?_⟩
        exact (hadded.mem he).imp_left fun hnew => congrArg Prod.snd hnew.2
      | false =>
        -- a connection that is not added leaves the others alone
        rw [hres] at hadded
        refine .inl ?_
        show (r.manager.addLocked id conn).2.activeConnections.entries.Sublist _
        generalize (r.manager.addLocked id conn).2.activeConnections = conns at hadded ⊢
        cases hadded
        exact List.Sublist.refl _
    · cases h
  | banPeerByIp | banCleanup | transfer | wait | cancel =>
    cases h
    exact .inl (List.Sublist.refl _)
  | recordBan i =>
    split at h
    · cases h
      exact .inl (List.Sublist.refl _)
    · cases h
  | closeFrom i =>
    split at h
    · cases h
      exact .inl (closeFrom_sublist _ _)
    · cases h
  | removeConnection id conn =>
    cases h
    obtain ⟨conns, hsub, heq⟩ := r.manager.removeConnection_eq id conn
    rw [heq]
    exact .inl hsub

theorem step_remembers (hr : r.Remembers) : r'.Remembers := by
  obtain ⟨hnow, ⟨hbans, hkept⟩ | ⟨banned, banTime, hbans, hinsert⟩⟩ := step_bans h
  · intro ip expiry hexpiry hrunning
    have hexpiry' : expiry ∈ r.expiryOf ip := by
      unfold ManagerRun.expiryOf at hexpiry ⊢
      rw [← hbans]
      exact hexpiry
    have hrunning' : r.manager.now < expiry := Nat.lt_of_le_of_lt hnow hrunning
    obtain ⟨ban, hban, rfl⟩ := hr ip expiry hexpiry' hrunning'
    exact ⟨ban, hkept ip ban hban hrunning', rfl⟩
  · intro ip expiry hexpiry hrunning
    unfold ManagerRun.expiryOf at hexpiry
    rw [hbans, List.find?_cons] at hexpiry
    rw [hinsert, OrdMap.get?_insert]
    by_cases hip : ip = banned
    · -- the ban that has been recorded
      subst hip
      simp only [decide_true, map_some, mem_def, some.injEq] at hexpiry
      exact ⟨_, if_pos rfl, hexpiry⟩
    · rw [if_neg hip]
      simp only [Ne.symm hip, decide_false] at hexpiry
      exact hr ip expiry hexpiry (Nat.lt_of_le_of_lt hnow hrunning)

theorem step_without {ip : Bytes} (hr : r.Remembers) (hforce : r.InForce ip)
    (hwithout : r.Without ip) : r'.Without ip := by
  rcases step_connections h with hsub | ⟨conn, hfree, hcases⟩
  · exact fun e he => hwithout e (hsub.subset he)
  · intro e he
    rcases hcases e he with rfl | hold
    · -- the address of the new connection is not banned
      rintro rfl
      obtain ⟨expiry, hexpiry, hrunning⟩ := hforce
      obtain ⟨ban, hban, rfl⟩ := hr _ expiry hexpiry hrunning
      have hbanned := isBanned_fst.mpr ⟨ban, hban, hrunning⟩
      rw [hfree] at hbanned
      cases hbanned
    · exact hwithout e hold

end

end ManagerStep

/-- After the last step of a `ban_peer_by_ip`, until the last ban on its address expires, no
    connection from the address is registered. -/
theorem no_connection_while_banned (m : PeerManager) (before after : List ManagerStep) (i : Nat)
    (ip : Bytes) (r₀ r₁ r : ManagerRun)
    (hbefore : run before { manager := m } = some r₀)
    (hcall : r₀.tasks[i]? = some (.closing ip))
    (hreturn : step r₀ (.closeFrom i) = some r₁)
    (hforce : StepsMeet step (fun r _ => r.InForce ip) after r₁)
    (hafter : run after r₁ = some r) :
    ∀ id conn, r.manager.activeConnections.get? id = some conn → conn.ip ≠ ip := by
  have hstart : ManagerRun.Remembers { manager := m } := by
    intro ip expiry hexpiry
    cases hexpiry
  have hr₀ : r₀.Remembers :=
    runSteps_preserves (fun _ _ _ => step_remembers) hbefore hstart
  have hwithout : r₁.Without ip := by
    simp only [step, hcall, some.injEq] at hreturn
    subst hreturn
    exact fun e he => ip_ne_of_mem_closeFrom he
  have hboth : r.Remembers ∧ r.Without ip := runSteps_invariant
    (I := fun r => r.Remembers ∧ r.Without ip)
    (fun _ _ _ hforce hstep hr =>
      ⟨step_remembers hstep hr.1, step_without hstep hr.1 hforce hr.2⟩)
    hforce hafter ⟨step_remembers hreturn hr₀, hwithout⟩
  exact fun id conn hget => hboth.2 (id, conn) ((OrdMap.mem_entries _).mpr hget)

/-- A connection is registered and another one waits for the lock when their address is banned. -/
def banRecorded : ManagerRun :=
  (run
    [.addConnection [1] ⟨1, [1], .ascii "a:1"⟩, .addLocked 0,
      .addConnection [2] ⟨2, [2], .ascii "a:2"⟩, .banPeerByIp (.ascii "a"), .recordBan 1]
    { manager := {} }).get (by decide +kernel)

def banReturned : ManagerRun := (step banRecorded (.closeFrom 1)).get (by decide +kernel)

theorem no_connection_while_banned_race :
    banRecorded.manager.activeConnections.get? [1] = some ⟨1, [1], .ascii "a:1"⟩ ∧
    ∃ r, run
        [.addLocked 0, .wait (banDuration - 1), .addConnection [3] ⟨3, [3], .ascii "a:3"⟩]
        banReturned = some r ∧
      ∀ id conn, r.manager.activeConnections.get? id = some conn → conn.ip ≠ Bytes.ascii "a" := by
  refine ⟨by decide +kernel, _, (some_get (by decide +kernel)).symm, ?_⟩
  exact no_connection_while_banned {} _ _ 1 (.ascii "a") banRecorded banReturned _
    (some_get _).symm (by decide +kernel) (some_get _).symm (by decide +kernel)
    (some_get _).symm

end P2P
