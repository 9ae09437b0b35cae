import Mathlib.Tactic.Positivity
import Mathlib.Tactic.Ring
import P2P.Native.Backoff

/-!
# How long a failing tracker is left alone

While the shift is by at most 30, the delay is the mathematical one.
-/

namespace P2P

open List OrdMap

namespace BackoffState

theorem attemptCount_onFailure {s : BackoffState} (now d : Int) (hlow : 0 ≤ s.attemptCount)
    (hhigh : s.attemptCount < 2 ^ 31 - 1) :
    (s.onFailure now d).attemptCount = s.attemptCount + 1 := by
  show Int.bmod (s.attemptCount + 1) (2 ^ 32) = s.attemptCount + 1
  apply Int.bmod_eq_of_le <;> omega

variable {s : BackoffState} {d : Int}

end BackoffState

def BackoffEvent.isFailure : BackoffEvent → Bool
  | .failure .. => true
  | _ => false

variable {states : TrackerBackoffStates} {url : Bytes}

namespace TrackerBackoffStates

open BackoffState

/-- The state that a failure starts from: a new one without an entry. -/
def stateOf (states : TrackerBackoffStates) (url : Bytes) : BackoffState :=
  (states.get? url).getD {}

theorem get?_after_of_ne {e : BackoffEvent} (h : e.client.getUrl ≠ url) :
    (states.after e).get? url = states.get? url := by
  cases e with
  | ask client now => exact (get?_modify ..).trans (if_neg h.symm)
  | success client now => exact (get?_insert ..).trans (if_neg h.symm)
  | failure client now d => exact (get?_insert ..).trans (if_neg h.symm)

theorem attemptCount_after (e : BackoffEvent) (hlow : 0 ≤ (states.stateOf url).attemptCount)
    (hhigh : (states.stateOf url).attemptCount < 2 ^ 31 - 1) :
    0 ≤ ((states.after e).stateOf url).attemptCount ∧
      ((states.after e).stateOf url).attemptCount ≤
        (states.stateOf url).attemptCount + (if e.isFailure then 1 else 0) := by
  by_cases hurl : e.client.getUrl = url
  · subst hurl
    cases e with simp only [stateOf, after, BackoffEvent.client, BackoffEvent.isFailure] at *
    | ask client now =>
      rw [get?_modify, if_pos rfl]
      cases hget : states.get? client.getUrl with
      | none => simp
      | some s =>
        rw [hget] at hlow hhigh
        simp only [Option.map_some, Option.getD_some, checkAndResetIfIdle] at *
        split <;> simp <;> omega
    | success client now =>
      rw [get?_insert, if_pos rfl]
      simp only [Option.getD_some, onSuccess]
      omega
    | failure client now d =>
      rw [get?_insert, if_pos rfl, Option.getD_some, attemptCount_onFailure now d hlow hhigh]
      simp only [if_true]
      omega
  · simp only [stateOf, get?_after_of_ne hurl] at *
    split <;> omega

theorem attemptCount_history (url : Bytes) (events : List BackoffEvent)
    (states : TrackerBackoffStates)
    (hlow : 0 ≤ (states.stateOf url).attemptCount)
    (hfew : (states.stateOf url).attemptCount + events.countP (·.isFailure) < 2 ^ 31 - 1) :
    0 ≤ ((events.foldl after states).stateOf url).attemptCount ∧
      ((events.foldl after states).stateOf url).attemptCount < 2 ^ 31 - 1 := by
  induction events generalizing states with
  | nil => simp at hfew ⊢; omega
  | cons e events ih =>
    rw [countP_cons] at hfew
    obtain ⟨hlow', hle⟩ := attemptCount_after e hlow (by omega)
    apply ih _ hlow'
    split at hfew <;> simp_all <;> omega

end TrackerBackoffStates

namespace BackoffState

/-- The last success is not so long ago that `now` forgets the failures. -/
def Remembers (s : BackoffState) (now : Int) : Prop :=
  s.lastSuccessAt = 0 ∨ now - s.lastSuccessAt ≤ resetAfterIdle

variable {s : BackoffState} {now : Int}

theorem checkAndResetIfIdle_of_remembers (h : s.Remembers now) {checked : Int}
    (hchecked : checked ≤ now) : s.checkAndResetIfIdle checked = s := by
  unfold checkAndResetIfIdle Remembers at *
  rw [if_neg]
  omega

end BackoffState

namespace TrackerBackoffStates

open BackoffState

theorem get?_later {s : BackoffState} {now : Int} (hget : states.get? url = some s)
    (hs : s.Remembers now) (later : List BackoffEvent)
    (hlater : ∀ e ∈ later, e.client.getUrl = url → ∃ client, ∃ u ≤ now, e = .ask client u) :
    (later.foldl after states).get? url = some s := by
  induction later generalizing states with
  | nil => exact hget
  | cons e later ih =>
    refine ih ?_ fun e' he' => hlater e' (mem_cons_of_mem _ he')
    by_cases hurl : e.client.getUrl = url
    · obtain ⟨client, u, hu, rfl⟩ := hlater e (mem_cons_self ..) hurl
      have hget' : states.get? client.getUrl = some s := hurl ▸ hget
      rw [after, get?_modify, hget', Option.map_some, checkAndResetIfIdle_of_remembers hs hu]
      exact if_pos hurl.symm
    · rw [get?_after_of_ne hurl, hget]

/-- A tracker that has failed is not contacted before its delay is over, as long as the last success
    is not too long ago and no announce to a tracker with the same `get_url` has ended since. -/
theorem failed_tracker_left_alone (before later : List BackoffEvent) (client : TrackerClient)
    (t d checked now : Int) (hfew : before.countP (·.isFailure) < 2 ^ 31 - 1)
    (hlater : ∀ e ∈ later, e.client.getUrl = client.getUrl →
      ∃ client', ∃ u ≤ now, e = .ask client' u) (hchecked : checked ≤ now)
    (hsuccess : ((before.foldl after .empty).stateOf client.getUrl).Remembers now)
    (hnow : now < t + nanoseconds (calculateBackoffDelay
      (((before.foldl after .empty).stateOf client.getUrl).onFailure t d).attemptCount d
        maxDelay)) :
    ((before ++ BackoffEvent.failure client t d :: later).foldl after .empty).contacts client
      checked now = false := by
  have hfew' : 0 + (before.countP (·.isFailure) : Int) < 2 ^ 31 - 1 := by omega
  obtain ⟨hlow, hhigh⟩ := attemptCount_history client.getUrl before .empty (Int.le_refl 0) hfew'
  rw [foldl_append, foldl_cons]
  generalize before.foldl after .empty = states at *
  -- neither the failure nor a question changes the time of the last success
  have hs : ((states.stateOf client.getUrl).onFailure t d).Remembers now := hsuccess
  have hfailed : (states.after (.failure client t d)).get? client.getUrl =
      some ((states.stateOf client.getUrl).onFailure t d) :=
    (get?_insert ..).trans (if_pos rfl)
  have hget := get?_later hfailed hs later hlater
  unfold contacts
  rw [hget]
  dsimp only
  rw [checkAndResetIfIdle_of_remembers hs hchecked, isInBackoff,
    if_neg (by unfold Remembers at hs; omega), attemptCount_onFailure t d hlow hhigh]
  have hretry : now < ((states.stateOf client.getUrl).onFailure t d).nextRetryAt := hnow
  simp [hretry]
  omega

/-- Two trackers of one host and port. -/
def twoTargets : TrackerClient × TrackerClient :=
  (.http (.ascii "t") 80 (.ascii "/a"), .http (.ascii "t") 80 (.ascii "/b"))

theorem failed_tracker_left_alone_asked :
    ([.failure twoTargets.2 3 30, .failure twoTargets.1 5 30, .ask twoTargets.2 6].foldl after
      .empty).contacts twoTargets.1 7 8 = false :=
  failed_tracker_left_alone [.failure twoTargets.2 3 30] [.ask twoTargets.2 6] twoTargets.1 5 30 7 8
    (by decide) (fun e he _ => ⟨twoTargets.2, 6, by decide, mem_singleton.mp he⟩) (by decide)
    (.inl rfl) (by decide +kernel)

/-- A tracker that succeeded at the first second fails an hour and a minute later, and is contacted
    a second after that; and one is contacted because another of its host and port has succeeded. -/
theorem failed_tracker_contacted_again :
    let states := [.success twoTargets.1 (nanoseconds 1),
      .failure twoTargets.1 (nanoseconds 3660) 30].foldl after .empty
    let shared := [.failure twoTargets.1 (nanoseconds 1) 30,
      .success twoTargets.2 (nanoseconds 2)].foldl after .empty
    (states.stateOf twoTargets.1.getUrl).nextRetryAt = nanoseconds 3720 ∧
      states.contacts twoTargets.1 (nanoseconds 3661) (nanoseconds 3661) = true ∧
      shared.contacts twoTargets.1 (nanoseconds 3) (nanoseconds 3) = true := by
  decide +kernel

end TrackerBackoffStates

end P2P
