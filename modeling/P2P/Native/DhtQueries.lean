import P2P.Native.RouteTable

/-!
# The queries of the DHT node (`Kademlia.hpp`)

The completion handler of a query in `pending_queries_` is called by whatever ends it:
`handle_response`, `handle_error`, `cleanup_loop`, `stop` or its timer.
-/

namespace P2P

structure KrpcMessage where
  transactionId : Bytes
  remote : Endpoint
  body : Bytes
  deriving DecidableEq, Repr

inductive QueryOutcome where
  | response (message : KrpcMessage)
  | error (message : KrpcMessage)
  | aborted
  | timedOut
  deriving DecidableEq, Repr

def krpcQueryTimeout : Int := 10 * 10 ^ 9

structure PendingQuery where
  transactionId : Bytes
  remote : Endpoint
  expiry : Int
  completed : Bool := false
  /-- The wait of `expiry_timer` is not cancelled. -/
  timerArmed : Bool := true
  outcomes : List QueryOutcome := []
  registered : Bool := false
  finished : Bool := false
  deriving DecidableEq, Repr

def PendingQuery.complete (q : PendingQuery) (outcome : QueryOutcome) : PendingQuery :=
  if q.completed then q
  else { q with completed := true, timerArmed := false, outcomes := q.outcomes ++ [outcome] }

structure DhtQueries where
  queries : List PendingQuery := []
  pending : OrdMap Bytes Nat := OrdMap.empty
  calls : List (Nat × QueryOutcome) := []
  now : Int := 0

namespace DhtQueries

variable (s : DhtQueries)

def issue (transactionId : Bytes) (remote : Endpoint) : DhtQueries :=
  { s with queries := s.queries ++
      [{ transactionId, remote, expiry := s.now + krpcQueryTimeout + 10 ^ 9 }] }

def register (i : Nat) (q : PendingQuery) : DhtQueries :=
  { s with
    queries := s.queries.modify i fun q => { q with registered := true }
    pending := s.pending.insert q.transactionId i }

/-- The query that is pending under the transaction id is taken out and will be completed. -/
def take (transactionId : Bytes) (outcome : QueryOutcome) : DhtQueries :=
  match s.pending.get? transactionId with
  | none => s
  | some i =>
    { s with pending := s.pending.erase transactionId, calls := s.calls ++ [(i, outcome)] }

def expired (i : Nat) : Bool := (s.queries[i]?).any fun q => q.expiry ≤ s.now

def cleanup : DhtQueries :=
  let old := s.pending.entries.filter fun entry => s.expired entry.2
  { s with
    pending := old.foldl (fun m entry => m.erase entry.1) s.pending
    calls := s.calls ++ old.map fun entry => (entry.2, .timedOut) }

def stop : DhtQueries :=
  { s with
    pending := OrdMap.empty
    calls := s.calls ++ s.pending.entries.map fun entry => (entry.2, .aborted) }

def complete (i : Nat) (outcome : QueryOutcome) : DhtQueries :=
  { s with queries := s.queries.modify i fun q => q.complete outcome }

def finish (i : Nat) (q : PendingQuery) : DhtQueries :=
  { s with
    queries := s.queries.modify i fun q => { q with finished := true }
    pending := s.pending.erase q.transactionId }

inductive Step where
  | issue (transactionId : Bytes) (remote : Endpoint)
  | register (i : Nat)
  | response (message : KrpcMessage)
  | error (message : KrpcMessage)
  /-- The cancellation slot of query `i`: ten seconds are over, or its coroutine is cancelled. -/
  | cancel (i : Nat)
  | expire (i : Nat)
  | cleanup
  | stop
  | call (k : Nat)
  | finish (i : Nat)
  | wait (time : Nat)
  deriving DecidableEq, Repr

def step (s : DhtQueries) : Step → Option DhtQueries
  | .issue transactionId remote => some (s.issue transactionId remote)
  | .register i =>
    match s.queries[i]? with
    | none => none
    | some q => if q.registered then none else some (s.register i q)
  | .response message => some (s.take message.transactionId (.response message))
  | .error message => some (s.take message.transactionId (.error message))
  | .cancel i =>
    match s.queries[i]? with
    | none => none
    | some q => if q.finished then none else some (s.take q.transactionId .aborted)
  | .expire i =>
    match s.queries[i]? with
    | none => none
    | some q =>
      if q.timerArmed = true ∧ q.expiry ≤ s.now then some (s.complete i .timedOut) else none
  | .cleanup => some s.cleanup
  | .stop => some s.stop
  | .call k =>
    match s.calls[k]? with
    | none => none
    | some (i, outcome) => some ({ s with calls := s.calls.eraseIdx k }.complete i outcome)
  | .finish i =>
    match s.queries[i]? with
    | none => none
    | some q =>
      if q.registered = true ∧ q.completed = true ∧ q.finished = false then some (s.finish i q)
      else none
  | .wait time => some { s with now := s.now + time }

end DhtQueries

end P2P
