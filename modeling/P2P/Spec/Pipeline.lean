import Mathlib.Algebra.GroupWithZero.Nat
import P2P.Native.PeerConnection

/-!
# The accounting of the request pipeline

`pipeline_bytes` is an unsigned difference: no more bytes should count as received than as
requested.
-/

namespace P2P

open PipelineStep UInt64

namespace PeerConnection

variable {c : PeerConnection}

def pendingBytes (rs : List RequestPayload) : Nat := (rs.map (·.length.toNat)).sum

@[simp] theorem pendingBytes_nil : pendingBytes [] = 0 := rfl

@[simp] theorem pendingBytes_cons (r : RequestPayload) (rs : List RequestPayload) :
    pendingBytes (r :: rs) = r.length.toNat + pendingBytes rs := List.sum_cons

theorem pendingBytes_concat (rs : List RequestPayload) (r : RequestPayload) :
    pendingBytes (rs ++ [r]) = pendingBytes rs + r.length.toNat := by
  simp [pendingBytes]

theorem pendingBytes_eraseP_le (p : RequestPayload → Bool) (rs : List RequestPayload) :
    pendingBytes (rs.eraseP p) ≤ pendingBytes rs := by
  induction rs with
  | nil => exact Nat.le_refl _
  | cons r rs ih =>
    rw [List.eraseP_cons]
    cases p r with
    | true => simp
    | false => simp only [cond_false, pendingBytes_cons]; omega

def demand (c : PeerConnection) : Nat :=
  c.totalBytesRequested.toNat + pendingBytes c.pendingRequests

/-- No more bytes are received than requested, and the queue does not wrap the counter. -/
structure Accounted (c : PeerConnection) : Prop where
  balanced : c.totalBytesReceived.toNat ≤ c.totalBytesRequested.toNat
  demand_lt : c.demand < 2 ^ 64

/-- A debit takes only bytes that are still expected, or none has been received. -/
def Covers (c : PeerConnection) (length : UInt32) : Prop :=
  c.totalBytesReceived.toNat = 0 ∨
    c.totalBytesReceived.toNat + length.toNat ≤ c.totalBytesRequested.toNat

theorem toNat_startRequest (r : RequestPayload)
    (h : c.totalBytesRequested.toNat + r.length.toNat < 2 ^ 64) :
    (c.startRequest r).totalBytesRequested.toNat =
      c.totalBytesRequested.toNat + r.length.toNat := by
  show (c.totalBytesRequested + r.length.toUInt64).toNat = _
  rw [UInt64.toNat_add, UInt32.toNat_toUInt64, Nat.mod_eq_of_lt h]

theorem Accounted.flushLoop {rs : List RequestPayload}
    (hb : c.totalBytesReceived.toNat ≤ c.totalBytesRequested.toNat)
    (hd : c.totalBytesRequested.toNat + pendingBytes rs < 2 ^ 64) : (flushLoop rs c).Accounted := by
  induction rs generalizing c with
  | nil => exact ⟨hb, hd⟩
  | cons r rs ih =>
    rw [pendingBytes_cons] at hd
    unfold flushLoop
    split
    · -- the pipeline is full, the rest stays in the queue
      exact ⟨hb, by rw [demand, pendingBytes_cons]; exact hd⟩
    · have hreq := toNat_startRequest (c := c) r (by omega)
      apply ih
      · show c.totalBytesReceived.toNat ≤ _
        omega
      · omega

theorem Accounted.flushPendingRequests (h : c.Accounted) : c.flushPendingRequests.Accounted := by
  unfold PeerConnection.flushPendingRequests
  split
  · exact h
  · exact .flushLoop h.balanced h.demand_lt

theorem Accounted.onRequestCompleted (h : c.Accounted) (length : UInt32) :
    (c.onRequestCompleted length).Accounted := by
  apply Accounted.flushPendingRequests
  constructor
  · show UInt64.toNat (if _ then _ else _) ≤ c.totalBytesRequested.toNat
    split
    · exact Nat.le_refl _
    · next hle => exact UInt64.le_iff_toNat_le.mp (UInt64.not_lt.mp hle)
  · exact h.demand_lt

theorem toNat_releaseBytes (c : PeerConnection) (length : UInt32) :
    (c.releaseBytes length).totalBytesRequested.toNat =
      c.totalBytesRequested.toNat - length.toNat := by
  show UInt64.toNat (if c.totalBytesRequested ≥ length.toUInt64 then _ else 0) = _
  split
  · next hle =>
    rw [UInt64.toNat_sub_of_le _ _ hle, UInt32.toNat_toUInt64]
  · -- more is given back than was requested: the counter stops at zero
    next hlt =>
    have hlt' := UInt64.lt_iff_toNat_lt.mp (UInt64.not_le.mp hlt)
    rw [UInt32.toNat_toUInt64] at hlt'
    rw [Nat.sub_eq_zero_of_le (Nat.le_of_lt hlt')]
    rfl

variable {length : UInt32}

section

variable (h : c.Accounted)

include h

theorem Accounted.releaseBytes (hc : c.Covers length) : (c.releaseBytes length).Accounted := by
  have hreq := toNat_releaseBytes c length
  have hd : c.totalBytesRequested.toNat + pendingBytes c.pendingRequests < 2 ^ 64 := h.demand_lt
  constructor
  · show c.totalBytesReceived.toNat ≤ _
    -- with nothing received, the clamped difference is still enough
    cases hc with
    | inl hzero => omega
    | inr hle => omega
  · show (c.releaseBytes length).totalBytesRequested.toNat + pendingBytes c.pendingRequests < _
    omega

theorem Accounted.releaseSlot : c.releaseSlot.Accounted :=
  ⟨h.balanced, h.demand_lt⟩

theorem Accounted.sendMessage (type : MessageType) (payload : Bytes) :
    (c.sendMessage type payload).Accounted :=
  ⟨h.balanced, h.demand_lt⟩

theorem Accounted.release (hc : c.Covers length) :
    ((c.releaseBytes length).releaseSlot).flushPendingRequests.Accounted :=
  ((h.releaseBytes hc).releaseSlot).flushPendingRequests

theorem Accounted.startRequest {r : RequestPayload} (hd : c.demand + r.length.toNat < 2 ^ 64) :
    (c.startRequest r).Accounted := by
  have hdef : c.demand = c.totalBytesRequested.toNat + pendingBytes c.pendingRequests := rfl
  have hreq := toNat_startRequest (c := c) r (by omega)
  have hb := h.balanced
  constructor
  · show c.totalBytesReceived.toNat ≤ _
    omega
  · show (c.startRequest r).totalBytesRequested.toNat + pendingBytes c.pendingRequests < _
    omega

theorem Accounted.enqueue {r : RequestPayload} (hd : c.demand + r.length.toNat < 2 ^ 64) :
    Accounted { c with pendingRequests := c.pendingRequests ++ [r] } := by
  constructor
  · exact h.balanced
  · show c.totalBytesRequested.toNat + pendingBytes (c.pendingRequests ++ [r]) < _
    rw [pendingBytes_concat, ← Nat.add_assoc]
    exact hd

theorem Accounted.sendRequest (index : UInt64) (begin : UInt32)
    (hd : c.demand + length.toNat < 2 ^ 64) : (c.sendRequest index begin length).2.Accounted := by
  unfold PeerConnection.sendRequest
  dsimp only
  split
  · exact h.enqueue hd
  · exact h.startRequest hd

theorem Accounted.sendCancel {index : UInt64} {begin : UInt32}
    (hc : c.pendingRequests.any (isQueued index begin length) = true ∨ c.Covers length) :
    (c.sendCancel index begin length).Accounted := by
  unfold PeerConnection.sendCancel
  split
  · -- the request leaves the queue, the counters stay
    apply Accounted.flushPendingRequests
    refine ⟨h.balanced, ?_⟩
    have hle := pendingBytes_eraseP_le (isQueued index begin length) c.pendingRequests
    have hd : c.totalBytesRequested.toNat + pendingBytes c.pendingRequests < 2 ^ 64 := h.demand_lt
    show c.totalBytesRequested.toNat +
      pendingBytes (c.pendingRequests.eraseP (isQueued index begin length)) < _
    omega
  · -- the request is on the wire, or it has been answered
    next hnone =>
    have hcov : c.releaseSlot.Covers length := hc.resolve_left hnone
    exact ((h.releaseSlot.releaseBytes hcov).flushPendingRequests).sendMessage _ _

theorem Accounted.receive {m : PeerMessage} (hc : ∀ req, m = .reject req → c.Covers req.length) :
    (c.receive m).Accounted := by
  cases m with
  | unchoke => exact Accounted.flushPendingRequests ⟨h.balanced, h.demand_lt⟩
  | piece index begin block => exact h.onRequestCompleted _
  | reject req => exact h.release (hc req rfl)
  | choke | interested | notInterested => exact ⟨h.balanced, h.demand_lt⟩
  | haveAll => exact h
  | haveNone => exact h
  | bitfield payload => exact h
  | have_ index => exact h
  | extendedMessage payload => exact h
  | request req => exact h

end

theorem Accounted.freePipeline (c : PeerConnection) : c.freePipeline.Accounted :=
  ⟨Nat.le_refl _, show 0 < 2 ^ 64 by decide⟩

def Bounded (c : PeerConnection) : Prop :=
  c.outstandingRequestCount.toNat ≤ maxOutstandingRequests.toNat

theorem Bounded.startRequest (hf : ¬ c.pipelineFull = true) (r : RequestPayload) :
    (c.startRequest r).Bounded := by
  simp only [pipelineFull, Bool.or_eq_true, decide_eq_true_eq, not_or] at hf
  have hlt := UInt64.lt_iff_toNat_lt.mp (UInt64.not_le.mp hf.1)
  show (c.outstandingRequestCount + 1).toNat ≤ _
  rw [UInt64.toNat_add, UInt64.toNat_one]
  omega

theorem Bounded.flushLoop (rs : List RequestPayload) (h : c.Bounded) :
    (flushLoop rs c).Bounded := by
  induction rs generalizing c with
  | nil => exact h
  | cons r rs ih =>
    unfold flushLoop
    split
    · exact h
    · next hf => exact ih (.startRequest hf r)

theorem Bounded.flushPendingRequests (h : c.Bounded) : c.flushPendingRequests.Bounded := by
  unfold PeerConnection.flushPendingRequests
  split
  · exact h
  · exact h.flushLoop _

theorem Bounded.releaseSlot (h : c.Bounded) : c.releaseSlot.Bounded := by
  show UInt64.toNat (if _ then _ else _) ≤ _
  split
  · next hpos =>
    have hone : 1 ≤ c.outstandingRequestCount :=
      UInt64.le_iff_toNat_le.mpr (UInt64.lt_iff_toNat_lt.mp hpos)
    rw [UInt64.toNat_sub_of_le _ _ hone]
    exact Nat.le_trans (Nat.sub_le _ _) h
  · exact h

theorem Bounded.sendRequest (h : c.Bounded) (index : UInt64) (begin length : UInt32) :
    (c.sendRequest index begin length).2.Bounded := by
  unfold PeerConnection.sendRequest
  dsimp only
  split
  · exact h
  · next hf => exact .startRequest hf _

theorem Bounded.sendCancel (h : c.Bounded) (index : UInt64) (begin length : UInt32) :
    (c.sendCancel index begin length).Bounded := by
  unfold PeerConnection.sendCancel
  split
  · exact Bounded.flushPendingRequests h
  · have hfree : (c.releaseSlot.releaseBytes length).Bounded := h.releaseSlot
    exact hfree.flushPendingRequests

theorem Bounded.receive (h : c.Bounded) (m : PeerMessage) : (c.receive m).Bounded := by
  cases m with
  | unchoke => exact Bounded.flushPendingRequests h
  | piece | reject =>
    apply Bounded.flushPendingRequests
    exact Bounded.releaseSlot h
  | _ => exact h

end PeerConnection

section Run

open PeerConnection

/-- What keeps the account: a request does not make the demand wrap around, and what is given back
    is expected. -/
def PipelineState.Covered (s : PipelineState) : PipelineStep → Prop
  | .sendRequest _ _ length => s.conn.demand + length.toNat < 2 ^ 64
  | .writeFailed i => ∀ length, s.writes[i]? = some length → s.conn.Covers length
  | .message msg => ∀ req, parseMessage msg = some (.reject req) → s.conn.Covers req.length
  | .sendCancel index begin length =>
    s.conn.pendingRequests.any (isQueued index begin length) = true ∨ s.conn.Covers length
  | _ => True

def CoveredRun : List PipelineStep → PipelineState → Prop :=
  StepsMeet step PipelineState.Covered

inductive ConnStep (s : PipelineState) : PipelineStep → PeerConnection → Prop
  | idle (st : PipelineStep) : ConnStep s st s.conn
  | sendRequest (index : UInt64) (begin length : UInt32) :
    ConnStep s (.sendRequest index begin length) (s.conn.sendRequest index begin length).2
  | writeFailed {i : Nat} {length : UInt32} (h : s.writes[i]? = some length) :
    ConnStep s (.writeFailed i) (s.conn.requestFailed length)
  | message {msg : Bytes} {m : PeerMessage} (h : parseMessage msg = some m) :
    ConnStep s (.message msg) (s.conn.receive m)
  | chokeHandled : ConnStep s .chokeHandled s.conn.freePipeline
  | sendCancel (index : UInt64) (begin length : UInt32) :
    ConnStep s (.sendCancel index begin length) (s.conn.sendCancel index begin length)

variable {s s' : PipelineState} {st : PipelineStep}

theorem connStep_of_step (h : st.step s = some s') : ConnStep s st s'.conn := by
  cases st with simp only [step] at h
  | sendRequest index begin length =>
    cases h
    exact .sendRequest index begin length
  | writeDone i =>
    split at h
    · cases h
      exact .idle _
    · cases h
  | writeFailed i =>
    split at h
    · next length hget =>
      cases h
      exact .writeFailed hget
    · cases h
  | message msg =>
    split at h
    · cases h
    · split at h
      · cases h
        exact .idle _
      · next m hm =>
        cases h
        exact .message hm
  | chokeHandled =>
    split at h
    · cases h
      exact .chokeHandled
    · cases h
  | sendCancel index begin length =>
    cases h
    exact .sendCancel index begin length

theorem step_accounted {c : PeerConnection} (h : s.conn.Accounted) (hc : s.Covered st)
    (hstep : ConnStep s st c) : c.Accounted := by
  cases hstep with
  | idle => exact h
  | sendRequest index begin length => exact h.sendRequest index begin hc
  | writeFailed hget => exact h.release (hc _ hget)
  | message hm => exact h.receive fun req hreq => hc req (by rw [hm, hreq])
  | chokeHandled => exact .freePipeline _
  | sendCancel index begin length => exact h.sendCancel hc

theorem step_bounded {c : PeerConnection} (h : s.conn.Bounded) (hstep : ConnStep s st c) :
    c.Bounded := by
  cases hstep with
  | idle => exact h
  | sendRequest index begin length => exact h.sendRequest index begin length
  | writeFailed hget =>
    apply Bounded.flushPendingRequests
    exact Bounded.releaseSlot h
  | message hm => exact h.receive _
  | chokeHandled => exact Nat.zero_le _
  | sendCancel index begin length => exact h.sendCancel index begin length

theorem run_bounded (steps : List PipelineStep) (h : s.conn.Bounded)
    (hrun : run steps s = some s') : s'.conn.Bounded :=
  runSteps_invariant (I := fun s => s.conn.Bounded)
    (fun _ _ _ _ hstep h => step_bounded h (connStep_of_step hstep))
    (.of_forall (fun _ _ => trivial) s) hrun h

theorem run_accounted (steps : List PipelineStep) (h : s.conn.Accounted) (hc : CoveredRun steps s)
    (hrun : run steps s = some s') : s'.conn.Accounted :=
  runSteps_invariant (I := fun s => s.conn.Accounted)
    (fun _ _ _ hok hstep h => step_accounted h hok (connStep_of_step hstep)) hc hrun h

end Run

/-- In a run in which every debit is covered, no more bytes are received than requested,
    `pipeline_bytes` is their difference, and the outstanding requests stay within the limit. -/
theorem pipeline_accounting (steps : List PipelineStep) (hc : CoveredRun steps .fresh)
    (s : PipelineState) (hrun : run steps .fresh = some s) :
    s.conn.totalBytesReceived ≤ s.conn.totalBytesRequested ∧
      s.conn.pipelineBytes.toNat =
        s.conn.totalBytesRequested.toNat - s.conn.totalBytesReceived.toNat ∧
      s.conn.outstandingRequestCount ≤ maxOutstandingRequests := by
  have hacc := run_accounted steps ⟨Nat.le_refl _, by decide⟩ hc hrun
  have hle := UInt64.le_iff_toNat_le.mpr hacc.balanced
  have hbound : s.conn.Bounded := run_bounded steps (Nat.zero_le _) hrun
  exact ⟨hle, UInt64.toNat_sub_of_le _ _ hle, UInt64.le_iff_toNat_le.mpr hbound⟩

/-- A block of one byte arrives, and then its request is cancelled (the piece is complete): more
    bytes are received than requested, the difference wraps around, and every later request is
    queued. -/
theorem sendCancel_wedges :
    (run [.sendRequest 0 0 1, .writeDone 0, .message [1],
        .message [7, 0, 0, 0, 0, 0, 0, 0, 0, 42], .sendCancel 0 0 1] .fresh).map
      (fun s => (s.conn.totalBytesReceived, s.conn.totalBytesRequested,
        s.conn.pipelineBytes.toNat, (s.conn.sendRequest 1 0 1).1)) =
    some (1, 0, 2 ^ 64 - 1, false) := by
  decide +kernel

theorem pipeline_accounting_cancel :
    ∃ s, run [.sendRequest 0 0 1, .writeDone 0, .sendCancel 0 0 1] .fresh = some s ∧
      s.conn.totalBytesReceived ≤ s.conn.totalBytesRequested := by
  obtain ⟨s, hrun⟩ : ∃ s, run
      [.sendRequest 0 0 1, .writeDone 0, .sendCancel 0 0 1] .fresh = some s :=
    Option.isSome_iff_exists.mp (by decide +kernel)
  have hc : CoveredRun [.sendRequest 0 0 1, .writeDone 0, .sendCancel 0 0 1] .fresh := by
    refine ⟨show 1 < 2 ^ 64 by decide,
      fun s₁ h₁ => ⟨trivial, fun s₂ h₂ => ⟨?_, fun _ _ => trivial⟩⟩⟩
    -- nothing has been received
    rw [← Option.some.inj h₁] at h₂
    cases h₂
    exact .inr (.inl rfl)
  exact ⟨s, hrun, (pipeline_accounting _ hc s hrun).1⟩

end P2P
