import P2P.Spec.RateLimiter

/-!
# The timer of the rate limiter

`refill_active` is to say that the timer runs.
-/

namespace P2P

open List RateLimiter Option

namespace RateLimiter

/-- While the limiter has not been stopped: with the flag no wait has been or is about to be
    cancelled, without it a wait is about to be, and the handlers start none. -/
structure Ticking (s : RateLimiter) : Prop where
  active : s.refillActive = true → 0 < s.rateBytesPerSecond ∧
    (s.timer.aborted = 0 ∧ s.timer.cancelling = 0) ∧
    s.timer.pending.toNat + s.timer.rearming + s.timer.due = 1
  idle : s.refillActive = false → (s.timer.pending = true → 0 < s.timer.cancelling) ∧
    s.timer.rearming = 0 ∧
    (0 < s.rateBytesPerSecond → s.timer.due = 0 ∧ s.timer.pending = false)
  waiters : s.waiters ≠ [] → s.refillActive = true

variable {s s' : RateLimiter}

/-- The wait is not started while handlers of earlier waits have not run or a call is about to
    cancel. -/
def Quiet (s : RateLimiter) : Prop :=
  s.refillActive = false → s.timer.aborted = 0 ∧ s.timer.due = 0 ∧ s.timer.cancelling = 0

instance Quiet.decidable (s : RateLimiter) : Decidable (Quiet s) :=
  inferInstanceAs (Decidable (_ → _ ∧ _ ∧ _))

theorem Ticking.maybeStartRefill (h : Ticking s) (hup : s.shuttingDown = false)
    (hrate : 0 < s.rateBytesPerSecond) (hquiet : Quiet s) :
    Ticking s.maybeStartRefill ∧ s.maybeStartRefill.refillActive = true := by
  unfold RateLimiter.maybeStartRefill
  cases hactive : s.refillActive with
  | true =>
    rw [if_pos (.inr (.inl rfl))]
    exact ⟨h, hactive⟩
  | false =>
    obtain ⟨-, hrearming, hpositive⟩ := h.idle hactive
    have hpending := (hpositive hrate).2
    obtain ⟨haborted, hdue, hcancelling⟩ := hquiet hactive
    rw [if_neg (by simp [hup, hrate.ne'])]
    refine ⟨⟨fun _ => ⟨hrate, ?_, ?_⟩, by simp, fun _ => rfl⟩, rfl⟩
    · simp [RefillTimer.schedule, RefillTimer.cancel, hpending, haborted, hcancelling]
    · simp [RefillTimer.schedule, RefillTimer.cancel, hrearming, hdue]

theorem Ticking.frame (h : Ticking s) (hrate : s'.rateBytesPerSecond = s.rateBytesPerSecond)
    (htimer : s'.timer = s.timer) (hactive : s'.refillActive = s.refillActive)
    (hwaiters : s'.waiters ≠ [] → s.waiters ≠ [] ∨ s.refillActive = true) : Ticking s' := by
  refine ⟨?_, ?_, ?_⟩
  · rw [hrate, htimer, hactive]
    exact h.active
  · rw [hrate, htimer, hactive]
    exact h.idle
  · intro hw
    rw [hactive]
    exact (hwaiters hw).elim h.waiters id

theorem takeReady_ne_nil {tokens : Nat} {ws : List TokenCall}
    (h : (takeReady tokens ws).2.2 ≠ []) : ws ≠ [] := by
  rintro rfl
  exact h rfl

theorem Ticking.awaitTokens (h : Ticking s) (hup : s.shuttingDown = false) {amount : Nat}
    (hquiet : 0 < s.rateBytesPerSecond → Quiet s) : Ticking (s.awaitTokens amount) := by
  unfold RateLimiter.awaitTokens
  dsimp only
  rw [if_neg (by simp [hup])]
  split
  · exact h.frame rfl rfl rfl .inl
  · next hrate =>
    have hrate := Nat.pos_of_ne_zero hrate
    obtain ⟨hticks, hactive⟩ := Ticking.maybeStartRefill (s := { s with calls := s.calls + 1 })
      (h.frame rfl rfl rfl .inl) hup hrate (hquiet hrate)
    split
    · exact hticks.frame rfl rfl rfl .inl
    · exact hticks.frame rfl rfl rfl fun _ => .inr hactive

theorem Ticking.setRate (h : Ticking s) (hup : s.shuttingDown = false) {bps : Nat}
    (hcalm : if 0 < bps then Quiet s else s.timer.rearming = 0) : Ticking (s.setRate bps) := by
  unfold RateLimiter.setRate
  dsimp only
  rw [if_neg (by simp [hup])]
  split
  · next hzero =>
    rw [if_neg (by omega)] at hcalm
    exact ⟨nofun, fun _ => ⟨fun _ => Nat.succ_pos _, hcalm, fun hpos => absurd hzero hpos.ne'⟩,
      fun hw => absurd rfl hw⟩
  · next hpos =>
    have hpos := Nat.pos_of_ne_zero hpos
    rw [if_pos hpos] at hcalm
    have hticks : Ticking { s with
        rateBytesPerSecond := bps, capacity := bps, tokens := min s.tokens bps } :=
      ⟨fun ha => ⟨hpos, (h.active ha).2⟩, fun ha => ⟨(h.idle ha).1, (h.idle ha).2.1, fun _ =>
        ⟨(hcalm ha).2.1, Bool.eq_false_of_not_eq_true fun hp =>
          ((h.idle ha).1 hp).ne' (hcalm ha).2.2⟩⟩, h.waiters⟩
    exact (hticks.maybeStartRefill hup hpos hcalm).1.frame rfl rfl rfl
      fun hw => .inl (takeReady_ne_nil hw)

theorem Ticking.expire (h : Ticking s) (hpending : s.timer.pending = true) :
    Ticking { s with timer := { s.timer with pending := false, due := s.timer.due + 1 } } := by
  refine ⟨fun ha => ?_, fun ha => ?_, h.waiters⟩
  · obtain ⟨hrate, haborted, hone⟩ := h.active ha
    rw [hpending] at hone
    refine ⟨hrate, haborted, ?_⟩
    simp only [Bool.toNat_false, Bool.toNat_true] at hone ⊢
    omega
  · -- the rate is zero, so the handler will start no wait
    obtain ⟨-, hrearming, hpositive⟩ := h.idle ha
    refine ⟨nofun, hrearming, fun hrate => ?_⟩
    rw [(hpositive hrate).2] at hpending
    cases hpending

theorem Ticking.cancelTimer (h : Ticking s) (hcancelling : 0 < s.timer.cancelling) :
    Ticking s.cancelTimer := by
  cases hactive : s.refillActive with
  | true => exact absurd (h.active hactive).2.1.2 hcancelling.ne'
  | false =>
    obtain ⟨-, hrearming, hpositive⟩ := h.idle hactive
    refine ⟨fun ha => ?_, fun _ => ⟨nofun, hrearming, fun hrate => ⟨(hpositive hrate).1, rfl⟩⟩,
      h.waiters⟩
    cases hactive.symm.trans ha

theorem Ticking.onAborted (h : Ticking s) (haborted : 0 < s.timer.aborted) :
    Ticking s.onAborted := by
  -- with the flag there would be no such handler
  cases hactive : s.refillActive with
  | true => exact absurd (h.active hactive).2.1.1 haborted.ne'
  | false =>
    exact ⟨nofun, fun _ => h.idle hactive, fun hw => absurd (h.waiters hw) (by simp [hactive])⟩

theorem Ticking.onRefill (h : Ticking s) (hup : s.shuttingDown = false) (hdue : 0 < s.timer.due) :
    Ticking s.onRefill := by
  unfold RateLimiter.onRefill
  dsimp only
  rw [if_neg (by simp [hup])]
  split
  · next hrate =>
    refine ⟨fun ha => ?_, fun ha => ?_, fun hw => ?_⟩
    · obtain ⟨-, haborted, hone⟩ := h.active ha
      refine ⟨hrate, haborted, ?_⟩
      show s.timer.pending.toNat + (s.timer.rearming + 1) + (s.timer.due - 1) = 1
      omega
    · exact absurd ((h.idle ha).2.2 hrate).1 hdue.ne'
    · exact h.waiters (takeReady_ne_nil hw)
  · next hrate =>
    -- the rate has been set to zero, and the flag has been reset
    have hidle : s.refillActive = false := by
      by_contra ha
      exact hrate (h.active (by simpa using ha)).1
    obtain ⟨hpending, hrearming, -⟩ := h.idle hidle
    refine ⟨nofun, fun _ => ⟨hpending, hrearming, fun hpos => absurd hpos hrate⟩, fun hw => ?_⟩
    exact absurd (h.waiters (takeReady_ne_nil hw)) (by simp [hidle])

theorem Ticking.rearm (h : Ticking s) (hrearming : 0 < s.timer.rearming) : Ticking s.rearm := by
  cases hactive : s.refillActive with
  | false => exact absurd (h.idle hactive).2.1 hrearming.ne'
  | true =>
    obtain ⟨hrate, haborted, hone⟩ := h.active hactive
    have hpending : s.timer.pending.toNat = 0 := by omega
    refine ⟨fun _ => ⟨hrate, ?_, ?_⟩, fun hidle => ?_, fun _ => hactive⟩
    · refine ⟨?_, haborted.2⟩
      show s.timer.aborted + s.timer.pending.toNat = 0
      omega
    · show true.toNat + (s.timer.rearming - 1) + s.timer.due = 1
      rw [Bool.toNat_true]
      omega
    · cases hactive.symm.trans hidle

end RateLimiter

namespace LimiterStep

/-- A call starts a wait only when the handlers of earlier waits have run and none is about to be
    cancelled, and the rate is not set to zero while a handler is about to start one. -/
def Calm (s : RateLimiter) : LimiterStep → Prop
  | .awaitTokens _ => 0 < s.rateBytesPerSecond → Quiet s
  | .setRate bps => if 0 < bps then Quiet s else s.timer.rearming = 0
  | _ => True

instance Calm.decidable (s : RateLimiter) : ∀ st, Decidable (Calm s st)
  | .awaitTokens _ => inferInstanceAs (Decidable (_ → Quiet s))
  | .setRate _ => inferInstanceAs (Decidable (ite ..))
  | .stop | .cancelTimer | .expire | .onAborted | .onRefill | .rearm => .isTrue trivial

variable {s s' : RateLimiter}

theorem stopped_step {st : LimiterStep} (hstep : step s st = some s')
    (h : s.shuttingDown = true) : s'.shuttingDown = true := by
  cases st with
  | awaitTokens | setRate | stop =>
    cases hstep
    simp [RateLimiter.awaitTokens, RateLimiter.setRate, RateLimiter.stop, h]
  | cancelTimer | expire | onAborted | onRefill | rearm =>
    obtain ⟨-, heq⟩ := ite_none_right_eq_some.mp hstep
    cases heq
    simp [RateLimiter.cancelTimer, RateLimiter.onAborted, RateLimiter.onRefill,
      RateLimiter.rearm, h]

end LimiterStep

namespace RateLimiter

/-- What the handlers of the timer can still do. A handler that is about to start a wait counts for
    the wait and its end. -/
def handlersLeft (s : RateLimiter) : Nat :=
  3 * s.timer.rearming + 2 * s.timer.pending.toNat + s.timer.due + s.timer.aborted

end RateLimiter

namespace LimiterStep

def ofTimer : LimiterStep → Bool
  | .expire | .onAborted | .onRefill | .rearm => true
  | _ => false

variable {s s' : RateLimiter}

theorem stopped_handlers {st : LimiterStep} (hstep : step s st = some s')
    (h : s.shuttingDown = true) :
    s'.granted = s.granted ∧ s'.waiters = s.waiters ∧
      (if st.ofTimer then 1 else 0) + s'.handlersLeft ≤ s.handlersLeft := by
  cases st with
  | awaitTokens | setRate | stop =>
    cases hstep
    simp [RateLimiter.awaitTokens, RateLimiter.setRate, RateLimiter.stop, h, handlersLeft, ofTimer]
  | cancelTimer | expire | onAborted | onRefill | rearm =>
    obtain ⟨hsome, heq⟩ := ite_none_right_eq_some.mp hstep
    cases heq
    simp [RateLimiter.cancelTimer, RateLimiter.onAborted, RateLimiter.onRefill, RateLimiter.rearm,
      RefillTimer.schedule, RefillTimer.cancel, h, handlersLeft, ofTimer] at hsome ⊢
    grind

/-- After `stop` nothing is granted and nobody waits, whatever is called, and the timer comes to
    rest: its handlers run a bounded number of times. -/
theorem limiter_comes_to_rest (hup : s.shuttingDown = false) (steps : List LimiterStep)
    (hrun : runSteps step steps s.stop = some s') :
    s'.granted = s.granted ∧ s'.waiters = [] ∧
      steps.countP ofTimer + s'.handlersLeft ≤ s.stop.handlersLeft := by
  have hstop : s.stop.shuttingDown = true ∧ s.stop.granted = s.granted ∧ s.stop.waiters = [] := by
    simp [RateLimiter.stop, hup]
  refine (runSteps_history_preserves (I := fun sts t => t.shuttingDown = true ∧
    t.granted = s.granted ∧ t.waiters = [] ∧
      sts.countP ofTimer + t.handlersLeft ≤ s.stop.handlersLeft) ?_ hrun
    ⟨hstop.1, hstop.2.1, hstop.2.2, by simp⟩).2
  rintro sts t st t' hst ⟨hdown, hgranted, hwaiters, hleft⟩
  obtain ⟨hg, hw, hless⟩ := stopped_handlers hst hdown
  refine ⟨stopped_step hst hdown, hg.trans hgranted, hw.trans hwaiters, ?_⟩
  rw [countP_append, countP_singleton]
  omega

/-- Somebody waits, and the wait of the timer is pending when the limiter is stopped. -/
theorem limiter_comes_to_rest_waiting :
    ∃ s', runSteps step [.cancelTimer, .onAborted, .awaitTokens 3, .setRate 7]
        (((RateLimiter.new 10 1).awaitTokens 10).awaitTokens 5).stop = some s' ∧
      s'.granted = [(0, 10)] ∧ s'.waiters = [] := by
  refine ⟨_, rfl, ?_⟩
  obtain ⟨hgranted, hwaiters, -⟩ := limiter_comes_to_rest
    (s := ((RateLimiter.new 10 1).awaitTokens 10).awaitTokens 5) (by decide)
    [.cancelTimer, .onAborted, .awaitTokens 3, .setRate 7] rfl
  exact ⟨hgranted.trans (by decide), hwaiters⟩

end LimiterStep

end P2P
