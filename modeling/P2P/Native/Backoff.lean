import P2P.Native.TrackerClient

/-!
# Backoff after failures (`Utils.hpp`, `TorrentSession.cpp`)

A tracker or a peer that fails is left alone for a time that doubles, up to half an hour. A session
has one state for all trackers with the same `get_url`.
-/

namespace P2P

/-- `1 << count` of an `int`: the count modulo 32, the value modulo `2 ^ 32`. -/
def shiftOne (count : Int) : Int := Int.bmod (2 ^ (count % 32).toNat) (2 ^ 32)

def calculateBackoffDelay (attemptCount initialDelay maxDelay : Int) : Int :=
  let delay := Int.bmod (initialDelay * shiftOne attemptCount) (2 ^ 64)
  if delay > maxDelay then maxDelay else delay

def nanoseconds (seconds : Int) : Int := seconds * 1000000000

structure BackoffState where
  attemptCount : Int := 0
  nextRetryAt : Int := 0
  lastSuccessAt : Int := 0
  deriving DecidableEq, Repr

namespace BackoffState

def maxDelay : Int := 30 * 60

def resetAfterIdle : Int := nanoseconds (60 * 60)

variable (s : BackoffState) (now : Int)

def isInBackoff : Bool :=
  if s.lastSuccessAt ≠ 0 ∧ now - s.lastSuccessAt > resetAfterIdle then false
  else s.attemptCount > 0 && now < s.nextRetryAt

def onSuccess : BackoffState := { attemptCount := 0, lastSuccessAt := now, nextRetryAt := 0 }

def onFailure (initialDelay : Int) : BackoffState :=
  let attemptCount := Int.bmod (s.attemptCount + 1) (2 ^ 32)
  { s with
    attemptCount := attemptCount
    nextRetryAt := now + nanoseconds (calculateBackoffDelay attemptCount initialDelay maxDelay) }

def checkAndResetIfIdle : BackoffState :=
  if s.attemptCount > 0 ∧ s.lastSuccessAt ≠ 0 ∧ now - s.lastSuccessAt > resetAfterIdle then
    { s with attemptCount := 0, nextRetryAt := 0 }
  else s

end BackoffState

abbrev TrackerBackoffStates := OrdMap Bytes BackoffState

inductive BackoffEvent where
  /-- `announce_tracker_for` asks whether the tracker is in backoff. -/
  | ask (client : TrackerClient) (now : Int)
  | success (client : TrackerClient) (now : Int)
  | failure (client : TrackerClient) (now initialDelay : Int)
  deriving DecidableEq

def BackoffEvent.client : BackoffEvent → TrackerClient
  | .ask client _ => client
  | .success client _ => client
  | .failure client _ _ => client

namespace TrackerBackoffStates

variable (states : TrackerBackoffStates)

def after : BackoffEvent → TrackerBackoffStates
  | .ask client now => states.modify client.getUrl (·.checkAndResetIfIdle now)
  | .success client now => states.insert client.getUrl (.onSuccess now)
  | .failure client now initialDelay =>
    states.insert client.getUrl
      (((states.get? client.getUrl).getD {}).onFailure now initialDelay)

/-- Whether `announce_tracker_for` contacts the tracker: the clock is read for each test. -/
def contacts (client : TrackerClient) (checked now : Int) : Bool :=
  match states.get? client.getUrl with
  | none => true
  | some s => !(s.checkAndResetIfIdle checked).isInBackoff now

end TrackerBackoffStates

end P2P
