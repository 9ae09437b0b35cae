import P2P.Native.AsyncSocket

/-!
# The write queue of a socket

All writes of a socket go through `AsyncSocket::enqueue_write`.
-/

namespace P2P

open Function

/-- The value of a `boost::system::error_code` that is not clear. -/
abbrev ErrorCode := Nat

/-- `PendingWrite`. The result and the waiter are those of the call that has appended it. -/
structure PendingWrite where
  frame : Bytes
  caller : Nat
deriving DecidableEq, Repr

inductive WriteStage where
  | waiting
  | draining
  | taken (entry : PendingWrite)
  | sending (entry : PendingWrite) (rest : Bytes)
  | failing (ec : ErrorCode)
  | notifying (ec : ErrorCode) (remaining : List PendingWrite)
  | returned
  | thrown (ec : ErrorCode)
deriving DecidableEq, Repr

inductive Fate where
  | pending
  | written
  | lost
deriving DecidableEq, Repr

structure WriteQueue where
  socket : AsyncSocket
  queue : List PendingWrite := []
  writing : Bool := false
  frames : List Bytes := []
  calls : List WriteStage := []
  /-- The error code that a call shares with its entry; `none` is a clear one. -/
  result : Nat → Option ErrorCode := fun _ => none
  cancelled : Nat → Bool := fun _ => false
  wire : Bytes := []
  broken : Bool := false
  /-- What has become of the frame of each call. The code has no such field. -/
  fate : Nat → Fate := fun _ => .pending

inductive WriteStep where
  | enqueue (frame : Bytes)
  | pop (call : Nat)
  | start (call : Nat)
  | transmit (call : Nat) (count : Nat)
  | written (call : Nat)
  | writeFailed (call : Nat) (ec : ErrorCode)
  | failAll (call : Nat)
  /-- The next entry in the loop of `fail_all_writes`; after the last one the call
      throws. -/
  | notify (call : Nat)
  | wake (call : Nat)
deriving DecidableEq, Repr

namespace WriteQueue

def goTo (s : WriteQueue) (call : Nat) (stage : WriteStage) : WriteQueue :=
  { s with calls := s.calls.set call stage }

def enqueue (s : WriteQueue) (frame : Bytes) : WriteQueue :=
  { s with
    queue := s.queue ++ [⟨frame, s.calls.length⟩]
    frames := s.frames ++ [frame]
    writing := true
    calls := s.calls ++ [if s.writing then .waiting else .draining] }

def pop (s : WriteQueue) (call : Nat) : WriteQueue :=
  match s.queue with
  | [] => { s.goTo call .returned with writing := false }
  | entry :: queue => { s.goTo call (.taken entry) with queue }

def start (s : WriteQueue) (call : Nat) (entry : PendingWrite) : WriteQueue :=
  let r := s.socket.encryptOutgoing entry.frame
  { s.goTo call (.sending entry r.1) with socket := r.2 }

def transmit (s : WriteQueue) (call : Nat) (entry : PendingWrite) (rest : Bytes) (count : Nat) :
    WriteQueue :=
  { s.goTo call (.sending entry (rest.drop count)) with wire := s.wire ++ rest.take count }

def written (s : WriteQueue) (call : Nat) (entry : PendingWrite) : WriteQueue :=
  { s.goTo call .draining with
    cancelled := update s.cancelled entry.caller true
    fate := update s.fate entry.caller .written }

def writeFailed (s : WriteQueue) (call : Nat) (entry : PendingWrite) (ec : ErrorCode) :
    WriteQueue :=
  { s.goTo call (.failing ec) with
    broken := true
    fate := update s.fate entry.caller .lost }

/-- `fail_all_writes` under the mutex: what is in the queue will not be written any more. -/
def failAll (s : WriteQueue) (call : Nat) (ec : ErrorCode) : WriteQueue :=
  { s.goTo call (.notifying ec s.queue) with
    queue := []
    writing := false
    fate := fun i => if i ∈ s.queue.map PendingWrite.caller then .lost else s.fate i }

def notify (s : WriteQueue) (call : Nat) (ec : ErrorCode) (entry : PendingWrite)
    (remaining : List PendingWrite) : WriteQueue :=
  { s.goTo call (.notifying ec remaining) with
    result := update s.result entry.caller (some ec)
    cancelled := update s.cancelled entry.caller true }

def afterWait (s : WriteQueue) (call : Nat) : WriteStage :=
  match s.result call with
  | none => .returned
  | some ec => .thrown ec

def step (s : WriteQueue) : WriteStep → Option WriteQueue
  | .enqueue frame => some (s.enqueue frame)
  | .pop call =>
    match s.calls[call]? with
    | some .draining => some (s.pop call)
    | _ => none
  | .start call =>
    match s.calls[call]? with
    | some (.taken entry) => some (s.start call entry)
    | _ => none
  | .transmit call count =>
    match s.calls[call]? with
    | some (.sending entry rest) =>
      if s.broken = false ∧ 0 < count ∧ count ≤ rest.length then
        some (s.transmit call entry rest count)
      else none
    | _ => none
  | .written call =>
    match s.calls[call]? with
    | some (.sending entry []) => if s.broken = false then some (s.written call entry) else none
    | _ => none
  | .writeFailed call ec =>
    match s.calls[call]? with
    | some (.sending entry _) => some (s.writeFailed call entry ec)
    | _ => none
  | .failAll call =>
    match s.calls[call]? with
    | some (.failing ec) => some (s.failAll call ec)
    | _ => none
  | .notify call =>
    match s.calls[call]? with
    | some (.notifying ec (entry :: remaining)) => some (s.notify call ec entry remaining)
    | some (.notifying ec []) => some (s.goTo call (.thrown ec))
    | _ => none
  | .wake call =>
    match s.calls[call]? with
    | some .waiting => some (s.goTo call (s.afterWait call))
    | _ => none

end WriteQueue

end P2P
