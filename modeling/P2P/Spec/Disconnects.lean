import P2P.Spec.Connections

/-!
# Why a connection is removed

`active_connections_` is keyed by the id of the peer, while `on_disconnect` belongs to a connection
object.
-/

namespace P2P

open ConnectStep OrdMap

/-- The reasons for which a step may remove the connection registered under `id`. -/
inductive ConnectStep.Reason (r r' : ConnectRun) (id : Bytes) (conn : Conn) : ConnectStep → Prop
  | disconnected (object : Nat) (hconn : r.conns[object]? = some conn) :
      Reason r r' id conn (.onDisconnect object)
  | banned (st : ConnectStep) (hst : st.Bans r conn.ip)
      (hban : r'.manager.bannedPeers.get? conn.ip =
        some ⟨r.manager.now, r.manager.now + banDuration⟩) : Reason r r' id conn st
  | evicted (i : Nat) (peerId : Bytes)
      (hfull : r.manager.connectionCount ≥ r.manager.maxTotalConnections)
      (hworst : r.manager.findWorstPeer = some conn) :
      Reason r r' id conn (.handshake i (some peerId))
  | replaced (i : Nat) (conn' : Conn) (hnew : conn'.object = r.conns.length)
      (hget : r'.manager.getConnection id = some conn') :
      Reason r r' id conn (.handshake i (some id))
  | closedAll : Reason r r' id conn .closeAll

/-- `on_disconnect` finds the connection itself under its peer's id, or a closed one, or none. -/
def ConnectStep.OwnEntry (r : ConnectRun) : ConnectStep → Prop
  | .onDisconnect object =>
    ∀ conn ∈ r.conns[object]?, ∀ other ∈ r.manager.getConnection conn.peerId,
      other = conn ∨ other.object ∈ r.manager.closed
  | _ => True

instance ConnectStep.OwnEntry.decidable (r : ConnectRun) :
    ∀ st, Decidable (ConnectStep.OwnEntry r st) := by
  intro st
  unfold ConnectStep.OwnEntry
  split <;> infer_instance

namespace PeerManager

theorem Added.removed {m : PeerManager} {id : Bytes} {conn : Conn} {added : Bool}
    {conns : OrdMap Bytes Conn} (h : m.Added id conn added conns)
    (hkeyed : ∀ e ∈ m.activeConnections.entries, e.2.peerId = e.1) {id' : Bytes} {old : Conn}
    (hold : m.activeConnections.get? id' = some old) (hgone : conns.get? id' ≠ some old) :
    (id' = id ∧ conns.get? id' = some conn) ∨
      (m.connectionCount ≥ m.maxTotalConnections ∧ m.findWorstPeer = some old) := by
  have hinsert : ∀ part : OrdMap Bytes Conn, id' = id →
    (part.insert id conn).get? id' = some conn :=
    fun part heq => by rw [get?_insert, if_pos heq]
  by_cases hid : id' = id
  · cases h with
    | refused => exact absurd hold hgone
    | room | evicted => exact .inl ⟨hid, hinsert _ hid⟩
  · cases h with
    | refused => exact absurd hold hgone
    | room hip htotal =>
      rw [get?_insert, if_neg hid] at hgone
      exact absurd hold hgone
    | evicted worst hip htotal hworst =>
      rw [get?_insert, if_neg hid, get?_erase] at hgone
      split at hgone
      · -- the entry of the worst connection stands under the id of its peer
        next heq =>
        obtain ⟨idw, hgetw⟩ := findWorstPeer_mem hworst
        have hkey := hkeyed _ ((mem_entries _).mpr hgetw)
        rw [heq, hkey, hgetw] at hold
        exact .inr ⟨htotal, hworst.trans hold⟩
      · exact absurd hold hgone

end PeerManager

theorem ConnectStep.step_reason {r r' : ConnectRun} {st : ConnectStep} (hr : r.Registered)
    (hown : ConnectStep.OwnEntry r st) (h : step r st = some r') {id : Bytes}
    {conn : Conn} (hget : r.manager.getConnection id = some conn)
    (hopen : conn.object ∉ r.manager.closed) (hgone : r'.manager.getConnection id ≠ some conn) :
    ConnectStep.Reason r r' id conn st := by
  unfold PeerManager.getConnection at hget hgone
  obtain ⟨hid, hmade⟩ := hr _ ((mem_entries _).mpr hget)
  cases step_change hr h with
  | same _ hconns hactive =>
    rw [hactive] at hgone
    exact absurd hget hgone
  | banned _ ip hst hban hconns hactive =>
    rw [hactive, PeerManager.get?_closeFrom, hget, Option.filter_some] at hgone
    split at hgone
    · exact absurd rfl hgone
    · next hip =>
      obtain rfl : conn.ip = ip := by simpa using hip
      exact .banned _ hst hban
  | added i peerId peerAddr added hconns hadded =>
    rcases hadded.removed (fun e he => (hr e he).1) hget hgone with ⟨rfl, hnew⟩ | ⟨hfull, hworst⟩
    · exact .replaced i _ rfl hnew
    · exact .evicted i peerId hfull hworst
  | disconnected object conn' hconn hconns hactive =>
    rw [hactive, get?_erase] at hgone
    split at hgone
    · next heq =>
      -- the entry that is erased is its own, or one whose connection is closed already
      rcases hown conn' hconn conn (heq ▸ hget) with rfl | hclosed
      · exact .disconnected object hconn
      · exact absurd hclosed hopen
    · exact absurd hget hgone
  | closedAll hconns hactive => exact .closedAll

/-- A registered connection is only removed for its own reasons, in every step of a run in which
    `on_disconnect` never finds another open connection under the id of its peer. -/
theorem removed_only_for_own_reasons (myPeerId : Bytes) (maxTotal maxPerIp maxHalfOpen : Nat)
    (steps : List ConnectStep)
    (hown : StepsMeet step ConnectStep.OwnEntry steps
      (.fresh myPeerId maxTotal maxPerIp maxHalfOpen))
    (before : List ConnectStep) (st : ConnectStep) (after : List ConnectStep)
    (hsteps : steps = before ++ st :: after) (r r' : ConnectRun)
    (hbefore : run before (.fresh myPeerId maxTotal maxPerIp maxHalfOpen) = some r)
    (hst : step r st = some r') (id : Bytes) (conn : Conn)
    (hget : r.manager.getConnection id = some conn) (hopen : conn.object ∉ r.manager.closed)
    (hgone : r'.manager.getConnection id ≠ some conn) : ConnectStep.Reason r r' id conn st := by
  subst hsteps
  exact step_reason (registered_run rfl hbefore) (hown.at hbefore) hst hget
    hopen hgone

/-- A peer connects to us twice, the second connection replaces the first and then ends. -/
def secondConnectionEnds : List ConnectStep :=
  [.accepted [49, 58, 49], .handshake 0 (some [1]), .unchokeSent 0,
    .accepted [49, 58, 50], .handshake 0 (some [1]), .unchokeSent 0, .onDisconnect 1]

theorem removed_only_for_own_reasons_second :
    ∃ r r', run (secondConnectionEnds.take 6) (.fresh [2] 500 4 500) = some r ∧
      r.manager.getConnection [1] = some ⟨1, [1], [49, 58, 50]⟩ ∧
      r'.manager.getConnection [1] = none ∧
      ConnectStep.Reason r r' [1] ⟨1, [1], [49, 58, 50]⟩ (.onDisconnect 1) := by
  let r := (run (secondConnectionEnds.take 6) (.fresh [2] 500 4 500)).get
    (by decide +kernel)
  let r' := (step r (.onDisconnect 1)).get (by decide +kernel)
  have hreason := removed_only_for_own_reasons [2] 500 4 500 secondConnectionEnds
    (by decide +kernel)
    (secondConnectionEnds.take 6) (.onDisconnect 1) [] (by rfl) r r'
    (Option.some_get _).symm (Option.some_get _).symm [1] ⟨1, [1], [49, 58, 50]⟩
    (by decide +kernel) (by decide +kernel) (by decide +kernel)
  exact ⟨r, r', (Option.some_get _).symm, by decide +kernel, by decide +kernel, hreason⟩

/-- A peer connects to us twice. -/
theorem replaced_connection_removes_successor :
    (run (secondConnectionEnds.take 6) (.fresh [2] 500 4 500)).map
        (fun r => (r.manager.getConnection [1], r.manager.closed)) =
      some (some ⟨1, [1], [49, 58, 50]⟩, [0, 0]) ∧
    (run (secondConnectionEnds.take 6 ++ [.onDisconnect 0])
        (.fresh [2] 500 4 500)).map (fun r => (r.manager.getConnection [1], r.manager.closed)) =
      some (none, [0, 0, 0]) := by
  decide +kernel

end P2P
