import P2P.Native.PexLoop

/-!
# Who is reached by a round of peer exchange

A connection that has advertised `ut_pex` is sent the message of the round, when it was not asked
before.
-/

namespace P2P

open List

namespace Extensions

def WillSupport (c : Extensions) : Prop :=
  c.supportedPex = some true ∨
    (c.supportedPex = none ∧ ∃ i, i ≠ 0 ∧ c.remoteExtension.get? i = some .utPex)

theorem WillSupport.pexRound {c : Extensions} (h : c.WillSupport) :
    c.pexRound.1.isSome ∧ c.pexRound.2.WillSupport := by
  have hsupported :
      c.supportedPex.getD (c.remoteExtension.entries.any (·.2 = .utPex)) = true := by
    rcases h with h | ⟨h, i, -, hi⟩
    · rw [h, Option.getD_some]
    · have hmem := (Assoc.find?_eq_some c.remoteExtension.sorted).mp hi
      rw [h, Option.getD_none, any_eq_true]
      exact ⟨_, hmem, decide_eq_true rfl⟩
  unfold Extensions.pexRound
  dsimp only
  rw [hsupported, if_pos rfl]
  exact ⟨rfl, .inl rfl⟩

theorem WillSupport.updateExtensionType {c : Extensions} (h : c.WillSupport) {index : UInt8}
    {type : ExtendedMessageType}
    (hkeep : type ≠ .utPex → index ≠ 0 → c.remoteExtension.get? index ≠ some .utPex) :
    (c.updateExtensionType index type).WillSupport := by
  rcases h with h | ⟨h, i, hi, hget⟩
  · exact .inl h
  · refine .inr ⟨h, i, hi, ?_⟩
    rw [Extensions.updateExtensionType, OrdMap.get?_insert]
    split
    · next heq =>
      by_contra hne
      exact hkeep (fun htype => hne (congrArg some htype)) (heq ▸ hi) (heq ▸ hget)
    · exact hget

end Extensions

namespace PexLoop

open Extensions

/-- The connections that are still to be sent the message of the round if they support it. -/
def pending (s : PexLoop) : List Nat :=
  match s.stage with
  | .asking rest => rest
  | .sending k rest => k :: rest
  | _ => []

/-- No send fails, and the id for `ut_pex` neither arrives after the connection was asked in vain
    nor is reused. -/
def Timely (s : PexLoop) : PexStep → Prop
  | .sendDone ok => ok = true
  | .updateExtensionType k index type =>
    (type = .utPex → index ≠ 0 → (s.conns k).supportedPex ≠ some false) ∧
      (type ≠ .utPex → index ≠ 0 → (s.conns k).remoteExtension.get? index ≠ some .utPex)
  | _ => True

instance Timely.decidable (s : PexLoop) : ∀ st, Decidable (Timely s st)
  | .sendDone _ => inferInstanceAs (Decidable (_ = _))
  | .updateExtensionType .. => inferInstanceAs (Decidable (_ ∧ _))
  | .connect _ | .disconnect _ | .cancel | .beginRound _ | .ask | .wake => .isTrue trivial

structure Reaching (s : PexLoop) : Prop where
  advertised : ∀ k ∈ s.advertised, (s.conns k).WillSupport
  due : ∀ k ∈ s.due, k ∈ s.advertised
  reached : ∀ k ∈ s.due, k ∈ s.pending ∨ (s.round, k) ∈ s.sent
  ended : s.stage = .ended → s.shuttingDown = true

variable {s s' : PexLoop}

theorem reaching_init : Reaching {} :=
  ⟨fun _ h => absurd h not_mem_nil, fun _ h => absurd h not_mem_nil,
    fun _ h => absurd h not_mem_nil, PexStage.noConfusion⟩

theorem Reaching.sent (h : Reaching s) (hpending : s.pending = []) {k : Nat} (hk : k ∈ s.due) :
    (s.round, k) ∈ s.sent := by
  have hreached := h.reached k hk
  rw [hpending] at hreached
  exact hreached.resolve_left not_mem_nil

theorem mem_pending_of_mem_ahead {k : Nat} (h : k ∈ s.ahead) : k ∈ s.pending := by
  cases hstage : s.stage with
  | asking rest => simpa only [ahead, pending, hstage] using h
  | sending c rest =>
    simp only [ahead, pending, hstage] at h ⊢
    exact mem_cons_of_mem _ h
  | _ => simp [ahead, hstage] at h

theorem Reaching.update (h : Reaching s) {k : Nat} {c : Extensions}
    (hc : k ∈ s.advertised → c.WillSupport) :
    ∀ j ∈ s.advertised, (Function.update s.conns k c j).WillSupport := by
  intro j hj
  by_cases hjk : j = k
  · rw [hjk, Function.update_self]
    exact hc (hjk ▸ hj)
  · rw [Function.update_of_ne hjk]
    exact h.advertised j hj

theorem Reaching.updateExtensionType (h : Reaching s) {k : Nat} {index : UInt8}
    {type : ExtendedMessageType} (htimely : Timely s (.updateExtensionType k index type)) :
    Reaching (s.updateExtensionType k index type) := by
  have hold := h.update fun hk => (h.advertised k hk).updateExtensionType htimely.2
  unfold PexLoop.updateExtensionType
  dsimp only
  split
  · next hpex =>
    obtain ⟨rfl, hindex⟩ := hpex
    -- the connection that advertises has been asked with success, or not at all
    have hnew : ((s.conns k).updateExtensionType index .utPex).WillSupport := by
      cases hask : (s.conns k).supportedPex with
      | none => exact .inr ⟨hask, index, hindex, by
          rw [Extensions.updateExtensionType, OrdMap.get?_insert, if_pos rfl]⟩
      | some b =>
        cases b with
        | false => exact absurd hask (htimely.1 rfl hindex)
        | true => exact .inl hask
    refine ⟨fun j hj => ?_, fun j hj => ?_, fun j hj => ?_, h.ended⟩
    · rcases mem_cons.mp hj with rfl | hj
      · dsimp only
        rwa [Function.update_self]
      · exact hold j hj
    · dsimp only at hj
      split at hj
      · exact (mem_cons.mp hj).elim (fun hjk => hjk ▸ mem_cons_self)
          fun hj => mem_cons_of_mem _ (h.due j hj)
      · exact mem_cons_of_mem _ (h.due j hj)
    · dsimp only at hj
      split at hj
      · next hahead =>
        rcases mem_cons.mp hj with rfl | hj
        · exact .inl (mem_pending_of_mem_ahead hahead)
        · exact h.reached j hj
      · exact h.reached j hj
  · exact ⟨hold, h.due, h.reached, h.ended⟩

theorem Reaching.beginRound (h : Reaching s) (hstage : s.stage = .head) (message : Bool) :
    Reaching (s.beginRound message) := by
  have hpending : s.pending = [] := by rw [pending, hstage]
  unfold PexLoop.beginRound
  split
  · next hdown =>
    exact ⟨h.advertised, h.due, fun _ hk => .inr (h.sent hpending hk), fun _ => hdown⟩
  · dsimp only
    split
    · refine ⟨h.advertised, fun k hk => ?_, fun k hk => .inl ?_, PexStage.noConfusion⟩
      · exact of_decide_eq_true (mem_filter.mp hk).2
      · exact (mem_filter.mp hk).1
    · exact ⟨h.advertised, fun k hk => absurd hk not_mem_nil,
        fun k hk => absurd hk not_mem_nil, PexStage.noConfusion⟩

theorem Reaching.ask (h : Reaching s) {k : Nat} {rest : List Nat}
    (hstage : s.stage = .asking (k :: rest)) : Reaching (s.ask k rest) := by
  have hpending : s.pending = k :: rest := by rw [pending, hstage]
  unfold PexLoop.ask
  refine ⟨fun j hj => ?_, h.due, fun j hj => ?_, fun hover => ?_⟩
  · exact h.update (fun hk => (h.advertised k hk).pexRound.2) j hj
  · have hreached := h.reached j hj
    rw [hpending] at hreached
    cases hid : (s.conns k).pexRound.1.isSome with
    | true =>
      simp only [pending, hid, if_true]
      exact hreached
    | false =>
      -- who is due is not skipped
      simp only [pending, hid, Bool.false_eq_true, if_false]
      refine hreached.imp_left fun hmem => (mem_cons.mp hmem).resolve_left ?_
      rintro rfl
      rw [(h.advertised j (h.due j hj)).pexRound.1] at hid
      cases hid
  · dsimp only at hover
    split at hover <;> cases hover

theorem Reaching.step (h : Reaching s) {st : PexStep} (htimely : Timely s st)
    (hstep : s.step st = some s') : Reaching s' := by
  cases st with
  | connect k | disconnect k =>
    cases hstep
    exact ⟨h.advertised, h.due, h.reached, h.ended⟩
  | updateExtensionType k index type =>
    cases hstep
    exact h.updateExtensionType htimely
  | cancel =>
    cases hstep
    exact ⟨h.advertised, h.due, h.reached, fun _ => rfl⟩
  | beginRound message =>
    simp only [PexLoop.step] at hstep
    split at hstep
    · next hstage =>
      cases hstep
      exact h.beginRound hstage message
    · cases hstep
  | ask =>
    simp only [PexLoop.step] at hstep
    split at hstep
    · next hstage =>
      cases hstep
      exact h.ask hstage
    · next hstage =>
      cases hstep
      have hpending : s.pending = [] := by rw [pending, hstage]
      exact ⟨h.advertised, h.due, fun _ hk => .inr (h.sent hpending hk), PexStage.noConfusion⟩
    · cases hstep
  | sendDone ok =>
    have hok : ok = true := htimely
    subst hok
    simp only [PexLoop.step] at hstep
    split at hstep
    · next k rest hstage =>
      cases hstep
      have hpending : s.pending = k :: rest := by rw [pending, hstage]
      refine ⟨h.advertised, h.due, fun j hj => ?_, PexStage.noConfusion⟩
      have hreached := h.reached j hj
      rw [hpending, mem_cons] at hreached
      rcases hreached with (rfl | hrest) | hsent
      · exact .inr mem_cons_self
      · exact .inl hrest
      · exact .inr (mem_cons_of_mem _ hsent)
    · cases hstep
  | wake =>
    simp only [PexLoop.step] at hstep
    split at hstep
    · next hstage =>
      cases hstep
      have hpending : s.pending = [] := by rw [pending, hstage]
      refine ⟨h.advertised, h.due, fun _ hk => .inr (h.sent hpending hk), fun hover => ?_⟩
      by_contra hdown
      dsimp only at hover
      rw [if_neg hdown] at hover
      cases hover
    · cases hstep

end PexLoop

def PexStep.Own : PexStep → Prop
  | .beginRound _ | .ask | .wake | .sendDone true => True
  | _ => False

namespace PexLoop

variable {s : PexLoop}

def GoesOn (s : PexLoop) : Prop :=
  ∃ own t, (∀ st ∈ own, st.Own) ∧ runSteps step own s = some t ∧ t.round = s.round + 1

theorem GoesOn.of_step {s' : PexLoop} {st : PexStep} (hstep : s.step st = some s') (hown : st.Own)
    (hround : s'.round = s.round) (h : GoesOn s') : GoesOn s := by
  obtain ⟨own, t, hall, hrun, ht⟩ := h
  refine ⟨st :: own, t, forall_mem_cons.mpr ⟨hown, hall⟩, ?_, hround ▸ ht⟩
  rw [runSteps, hstep, Option.bind_some, hrun]

theorem goesOn_head (hup : s.shuttingDown = false) (hstage : s.stage = .head) : GoesOn s := by
  refine ⟨[.beginRound true], s.beginRound true, fun st hst => ?_, ?_, ?_⟩
  · rw [mem_singleton.mp hst]
    trivial
  · rw [runSteps, step, hstage]
    rfl
  · rw [beginRound, hup]
    rfl

theorem goesOn_waiting (hup : s.shuttingDown = false) (hstage : s.stage = .waiting) : GoesOn s := by
  have hstep : s.step .wake = some { s with stage := .head } := by
    simp only [step, hstage, hup, Bool.false_eq_true, if_false]
  exact .of_step hstep trivial rfl (goesOn_head hup rfl)

theorem goesOn_asking {rest : List Nat} (hup : s.shuttingDown = false)
    (hstage : s.stage = .asking rest) : GoesOn s := by
  induction rest generalizing s with
  | nil =>
    have hstep : s.step .ask = some { s with stage := .waiting } := by rw [step, hstage]
    exact .of_step hstep trivial rfl (goesOn_waiting hup rfl)
  | cons k rest ih =>
    have hstep : s.step .ask = some (s.ask k rest) := by rw [step, hstage]
    refine .of_step hstep trivial rfl ?_
    cases hid : (s.conns k).pexRound.1.isSome with
    | false => exact ih hup (by simp only [ask, hid, Bool.false_eq_true, if_false])
    | true =>
      have hsending : (s.ask k rest).stage = .sending k rest := by
        simp only [ask, hid, if_true]
      have hdone : (s.ask k rest).step (.sendDone true) = some { s.ask k rest with
          stage := .asking rest, sent := (s.round, k) :: s.sent } := by
        rw [step, hsending]
        rfl
      exact .of_step hdone trivial rfl (ih hup rfl)

theorem Reaching.goesOn (h : Reaching s) (hup : s.shuttingDown = false) : GoesOn s := by
  cases hstage : s.stage with
  | head => exact goesOn_head hup hstage
  | asking rest => exact goesOn_asking hup hstage
  | sending k rest =>
    have hdone : s.step (.sendDone true) = some { s with
        stage := .asking rest, sent := (s.round, k) :: s.sent } := by
      rw [PexLoop.step, hstage]
      rfl
    exact .of_step hdone trivial rfl (goesOn_asking hup rfl)
  | waiting => exact goesOn_waiting hup hstage
  | ended =>
    rw [h.ended hstage] at hup
    cases hup

end PexLoop

open PexLoop

/-- When a round has come to all connections, those that had advertised `ut_pex` were sent its
    message, and until the shutdown the loop comes to the next round. -/
theorem pex_rounds_reach (steps : List PexStep) (s : PexLoop)
    (htimely : StepsMeet PexLoop.step Timely steps {})
    (hrun : runSteps PexLoop.step steps {} = some s) :
    (s.pending = [] → ∀ k ∈ s.due, (s.round, k) ∈ s.sent) ∧
    (s.stage = .ended → s.shuttingDown = true) ∧
    (s.shuttingDown = false → GoesOn s) := by
  have h : Reaching s := runSteps_invariant
    (fun _ _ _ htimely hstep h => Reaching.step h htimely hstep) htimely hrun reaching_init
  exact ⟨fun hpending _ hk => h.sent hpending hk, h.ended, h.goesOn⟩

def firstRound : List PexStep :=
  [.connect 0, .updateExtensionType 0 2 .utPex, .beginRound true, .ask, .sendDone true, .ask]

theorem pex_rounds_reach_first :
    ∃ s, runSteps PexLoop.step firstRound {} = some s ∧ s.pending = [] ∧ s.due = [0] ∧
      (s.round, 0) ∈ s.sent := by
  obtain ⟨s, hrun⟩ : ∃ s, runSteps PexLoop.step firstRound {} = some s := ⟨_, rfl⟩
  have hdue : s.pending = [] ∧ s.due = [0] := by
    cases hrun
    exact ⟨rfl, rfl⟩
  have htimely : StepsMeet PexLoop.step Timely firstRound {} := by decide
  exact ⟨s, hrun, hdue.1, hdue.2,
    (pex_rounds_reach firstRound s htimely hrun).1 hdue.1 0 (hdue.2 ▸ mem_cons_self)⟩

/-- A connection is asked before its handshake arrives, and misses the second round. -/
theorem pex_round_misses :
    (runSteps PexLoop.step [.connect 0, .beginRound true, .ask, .ask,
        .updateExtensionType 0 2 .utPex, .wake, .beginRound true, .ask, .ask] {}).map
      (fun s => (s.stage, s.due, s.sent)) = some (.waiting, [0], []) ∧
    (runSteps PexLoop.step [.connect 0, .connect 1, .updateExtensionType 0 2 .utPex,
        .updateExtensionType 1 2 .utPex, .beginRound true, .ask, .sendDone false] {}).map
      (fun s => (s.stage, s.due, s.sent, s.shuttingDown)) = some (.ended, [0, 1], [], false) :=
  ⟨rfl, rfl⟩

end P2P
