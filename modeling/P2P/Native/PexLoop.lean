import P2P.ForStd.Run
import P2P.Native.Extensions

/-!
# Rounds of peer exchange (`PeerManager.cpp`)

`pex_loop` while connections come and go and extended handshakes arrive. An exception of a send
leaves the coroutine.
-/

namespace P2P

/-- At the head of the loop, before a connection, in a send, at the timer, or behind `co_return`. -/
inductive PexStage where
  | head
  | asking (rest : List Nat)
  | sending (k : Nat) (rest : List Nat)
  | waiting
  | ended
  deriving DecidableEq, Repr

/-- The last four fields record the number of the round, who was sent which rounds, who has
    advertised `ut_pex`, and who has done so before the round came to it. -/
structure PexLoop where
  conns : Nat → Extensions := fun _ => {}
  registered : List Nat := []
  shuttingDown : Bool := false
  stage : PexStage := .head
  round : Nat := 0
  sent : List (Nat × Nat) := []
  advertised : List Nat := []
  due : List Nat := []

inductive PexStep where
  | connect (k : Nat)
  | disconnect (k : Nat)
  | updateExtensionType (k : Nat) (index : UInt8) (type : ExtendedMessageType)
  | cancel
  | beginRound (message : Bool)
  | ask
  | sendDone (ok : Bool)
  | wake

namespace PexLoop

/-- The connections that the round has not come to. -/
def ahead (s : PexLoop) : List Nat :=
  match s.stage with
  | .asking rest | .sending _ rest => rest
  | _ => []

def updateExtensionType (s : PexLoop) (k : Nat) (index : UInt8) (type : ExtendedMessageType) :
    PexLoop :=
  let s := { s with
    conns := Function.update s.conns k ((s.conns k).updateExtensionType index type) }
  if type = .utPex ∧ index ≠ 0 then
    { s with advertised := k :: s.advertised, due := if k ∈ s.ahead then k :: s.due else s.due }
  else s

def beginRound (s : PexLoop) (message : Bool) : PexLoop :=
  if s.shuttingDown then { s with stage := .ended }
  else
    let s := { s with round := s.round + 1 }
    if message then
      { s with stage := .asking s.registered, due := s.registered.filter (· ∈ s.advertised) }
    else { s with stage := .waiting, due := [] }

def ask (s : PexLoop) (k : Nat) (rest : List Nat) : PexLoop :=
  let (id, conn) := (s.conns k).pexRound
  { s with
    conns := Function.update s.conns k conn
    stage := if id.isSome then .sending k rest else .asking rest }

def step (s : PexLoop) : PexStep → Option PexLoop
  | .connect k => some { s with registered := s.registered ++ [k] }
  | .disconnect k => some { s with registered := s.registered.erase k }
  | .updateExtensionType k index type => some (s.updateExtensionType k index type)
  | .cancel => some { s with shuttingDown := true }
  | .beginRound message =>
    match s.stage with
    | .head => some (s.beginRound message)
    | _ => none
  | .ask =>
    match s.stage with
    | .asking (k :: rest) => some (s.ask k rest)
    | .asking [] => some { s with stage := .waiting }
    | _ => none
  | .sendDone ok =>
    match s.stage with
    | .sending k rest =>
      some (if ok then { s with stage := .asking rest, sent := (s.round, k) :: s.sent }
        else { s with stage := .ended })
    | _ => none
  | .wake =>
    match s.stage with
    | .waiting => some { s with stage := if s.shuttingDown then .ended else .head }
    | _ => none

end PexLoop

end P2P
