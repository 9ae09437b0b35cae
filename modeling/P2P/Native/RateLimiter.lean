import P2P.Native.FileManager

/-!
# The rate limiter (`AsyncRateLimiter.hpp`)

`await_tokens` takes its tokens at once or waits in a queue. A timer that its own handler starts
again adds tokens ten times in a second and serves the queue.
-/

namespace P2P

structure RefillTimer where
  pending : Bool := false
  /-- The cancelled waits whose handlers have not run. -/
  aborted : Nat := 0
  /-- The waits that have ended and whose handlers have not run. -/
  due : Nat := 0
  /-- The handlers that are about to start the next wait. -/
  rearming : Nat := 0
  /-- The calls that have released the mutex and are about to cancel the wait. -/
  cancelling : Nat := 0
  deriving DecidableEq, Repr

def RefillTimer.cancel (t : RefillTimer) : RefillTimer :=
  { t with pending := false, aborted := t.aborted + t.pending.toNat }

/-- `schedule_refill`: `expires_after` cancels a wait that is pending. -/
def RefillTimer.schedule (t : RefillTimer) : RefillTimer := { t.cancel with pending := true }

abbrev TokenCall := Nat × Nat

structure RateLimiter where
  rateBytesPerSecond : Nat
  capacity : Nat
  tokens : Nat
  refillActive : Bool := false
  shuttingDown : Bool := false
  waiters : List TokenCall := []
  timer : RefillTimer := {}
  calls : Nat := 0
  granted : List TokenCall := []
  deriving DecidableEq, Repr

namespace RateLimiter

def new (rateBps capacityFactor : Nat) : RateLimiter where
  rateBytesPerSecond := rateBps
  capacity := u64 (rateBps * capacityFactor)
  tokens := u64 (rateBps * capacityFactor)

/-- The loop of `collect_ready_waiters_locked`: the tokens left, the ready waiters, the others. -/
def takeReady (tokens : Nat) : List TokenCall → Nat × List TokenCall × List TokenCall
  | [] => (tokens, [], [])
  | w :: ws =>
    if tokens ≥ w.2 then
      let r := takeReady (tokens - w.2) ws
      (r.1, w :: r.2.1, r.2.2)
    else (tokens, [], w :: ws)

variable (s : RateLimiter)

def maybeStartRefill : RateLimiter :=
  if s.shuttingDown ∨ s.refillActive ∨ s.rateBytesPerSecond = 0 then s
  else { s with refillActive := true, timer := s.timer.schedule }

def collectReadyWaiters : RateLimiter :=
  let r := takeReady s.tokens s.waiters
  { s with tokens := r.1, waiters := r.2.2, granted := s.granted ++ r.2.1 }

def awaitTokens (amount : Nat) : RateLimiter :=
  let call := (s.calls, amount)
  let s := { s with calls := s.calls + 1 }
  if s.shuttingDown then s
  else if s.rateBytesPerSecond = 0 then { s with granted := s.granted ++ [call] }
  else
    let s := s.maybeStartRefill
    if s.tokens ≥ amount then
      { s with tokens := s.tokens - amount, granted := s.granted ++ [call] }
    else { s with waiters := s.waiters ++ [call] }

/-- Under the mutex; the timer is cancelled behind it. -/
def setRate (bps : Nat) : RateLimiter :=
  if s.shuttingDown then s
  else
    let s := { s with rateBytesPerSecond := bps, capacity := bps }
    if bps = 0 then
      { s with
        tokens := 2 ^ 64 - 1
        refillActive := false
        timer.cancelling := s.timer.cancelling + 1
        granted := s.granted ++ s.waiters
        waiters := [] }
    else { s with tokens := min s.tokens s.capacity }.maybeStartRefill.collectReadyWaiters

def stop : RateLimiter :=
  if s.shuttingDown then s
  else
    { s with
      shuttingDown := true
      refillActive := false
      timer.cancelling := s.timer.cancelling + 1
      waiters := [] }

/-- `state->timer.cancel()` of `set_rate` and `stop`. -/
def cancelTimer : RateLimiter :=
  { s with timer := { s.timer with cancelling := s.timer.cancelling - 1 }.cancel }

def onAborted : RateLimiter :=
  { s with refillActive := false, timer.aborted := s.timer.aborted - 1 }

def refillAmount : Nat := s.rateBytesPerSecond * 100 / 1000

def onRefill : RateLimiter :=
  let s := { s with timer.due := s.timer.due - 1 }
  if s.shuttingDown then { s with refillActive := false }
  else
    let tokens := min (u64 (s.tokens + s.refillAmount)) s.capacity
    let s := { s with tokens := tokens }.collectReadyWaiters
    if s.rateBytesPerSecond > 0 then { s with timer.rearming := s.timer.rearming + 1 }
    else { s with refillActive := false }

def rearm : RateLimiter :=
  { s with timer := { s.timer with rearming := s.timer.rearming - 1 }.schedule }

end RateLimiter

inductive LimiterOp where
  | awaitTokens (amount : Nat)
  | setRate (bps : Nat)
  | refill
  deriving DecidableEq, Repr

def LimiterOp.apply (s : RateLimiter) : LimiterOp → RateLimiter
  | .awaitTokens amount => s.awaitTokens amount
  | .setRate bps => s.setRate bps
  | .refill => s.onRefill

inductive LimiterStep where
  | awaitTokens (amount : Nat)
  | setRate (bps : Nat)
  | stop
  | cancelTimer
  | expire
  | onAborted
  | onRefill
  | rearm
  deriving DecidableEq, Repr

def LimiterStep.step (s : RateLimiter) : LimiterStep → Option RateLimiter
  | .awaitTokens amount => some (s.awaitTokens amount)
  | .setRate bps => some (s.setRate bps)
  | .stop => some s.stop
  | .cancelTimer => if s.timer.cancelling > 0 then some s.cancelTimer else none
  | .expire =>
    if s.timer.pending then
      some { s with timer := { s.timer with pending := false, due := s.timer.due + 1 } }
    else none
  | .onAborted => if s.timer.aborted > 0 then some s.onAborted else none
  | .onRefill => if s.timer.due > 0 then some s.onRefill else none
  | .rearm => if s.timer.rearming > 0 then some s.rearm else none

end P2P
