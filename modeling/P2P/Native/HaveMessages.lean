import P2P.Native.Handshake
import P2P.Native.PieceTasks
import P2P.Native.ResumeData

/-!
# What peers are told of our pieces (`PeerConnection.cpp`, `TorrentSession.cpp`)

`perform_handshake` looks at the pieces and sends what it finds. From the registration of the
connection on `send_have_message_to_all` reaches it.
-/

namespace P2P

inductive TellStage where
  | sending
  | registered
  | ended
  deriving DecidableEq, Repr

structure ToldConn where
  stage : TellStage := .sending
  failed : Bool := false
  told : List Nat
  deriving DecidableEq, Repr

/-- A session with its connections; `env` is what a handshake reads apart from the pieces. -/
structure HaveRun where
  env : HandshakeEnv
  session : TorrentSession
  conns : List ToldConn := []

inductive HaveStep where
  | handshake (fastExtension : Bool)
  | register (k : Nat) (added : Bool)
  | sendFails (k : Nat)
  | remove (k : Nat)
  | pieceWritten (piece : Nat)
  deriving DecidableEq, Repr

def HaveRun.inventoryMessage (r : HaveRun) (fastExtension : Bool) : Option Bytes :=
  { r.env with
    completedPieces := r.session.completedPieces
    numPieces := r.session.numPieces
    haveBitfield := r.session.getHaveBitfieldStr }.inventoryMessage fastExtension

def piecesTold (n : Nat) : Option Bytes → List Nat
  | some (type :: bits) => (List.range n).filter fun p =>
    type = MessageType.haveAll.toByte ∨ type = MessageType.bitfield.toByte ∧ Bitfield.get bits p
  | _ => []

/-- `send_have`, for a registered connection. The index is sent as a `uint32_t`. -/
def ToldConn.sendHave (piece : Nat) (c : ToldConn) : ToldConn :=
  if c.stage = .registered then { c with told := piece % 2 ^ 32 :: c.told } else c

namespace HaveStep

def step (r : HaveRun) : HaveStep → Option HaveRun
  | .handshake fastExtension =>
    let told := piecesTold r.session.numPieces (r.inventoryMessage fastExtension)
    some { r with conns := r.conns ++ [{ told := told }] }
  | .register k added =>
    match r.conns[k]? with
    | some ⟨.sending, false, told⟩ =>
      some { r with conns := r.conns.set k ⟨if added then .registered else .ended, false, told⟩ }
    | _ => none
  | .sendFails k =>
    -- a failure before the registration ends the handshake
    (r.conns[k]?).map fun c => { r with conns := r.conns.set k { c with
      stage := if c.stage = .sending then .ended else c.stage
      failed := true } }
  | .remove k =>
    (r.conns[k]?).map fun c => { r with conns := r.conns.set k { c with stage := .ended } }
  | .pieceWritten piece =>
    some { r with session := r.session.markHave piece, conns := r.conns.map (.sendHave piece) }

def run : List HaveStep → HaveRun → Option HaveRun := runSteps step

end HaveStep

end P2P
