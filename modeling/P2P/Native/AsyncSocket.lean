import P2P.ForStd.Coroutine
import P2P.ForStd.Keystream
import P2P.Native.PeerConnection

/-!
# The socket of a connection (`AsyncSocket.hpp`, `Mse.hpp`)

`read_buf_` holds what was read and not consumed; `fill_buffer` reads until there is enough.
-/

namespace P2P

def maxMessageSize : Nat := 10 * 1024 * 1024

def readChunkSize : Nat := 4096

def compactThreshold : Nat := 65536

/-! ## RC4 -/

structure Rc4 where
  s : Vector UInt8 256 := Vector.replicate 256 0
  i : UInt8 := 0
  j : UInt8 := 0
  deriving DecidableEq, Repr

namespace Rc4

def box (s : Vector UInt8 256) (k : UInt8) : UInt8 := s.get ⟨k.toNat, k.toNat_lt⟩

def exchange (s : Vector UInt8 256) (i j : UInt8) : Vector UInt8 256 :=
  s.swap i.toNat j.toNat i.toNat_lt j.toNat_lt

def schedule (key : Bytes) (r : Vector UInt8 256 × UInt8) (i : Nat) : Vector UInt8 256 × UInt8 :=
  let j := r.2 + box r.1 (UInt8.ofNat i) + key.getD (i % key.length) 0
  (exchange r.1 (UInt8.ofNat i) j, j)

def init (key : Bytes) : Except String Rc4 :=
  if key = [] then .error "MSE: RC4 key must not be empty"
  else
    let s := Vector.ofFn fun i : Fin 256 => UInt8.ofNat i
    .ok ⟨((List.range 256).foldl (schedule key) (s, 0)).1, 0, 0⟩

def advance (r : Rc4) : Rc4 :=
  let i := r.i + 1
  let j := r.j + box r.s i
  ⟨exchange r.s i j, i, j⟩

def keyByte (r : Rc4) : UInt8 := box r.s (box r.s r.i + box r.s r.j)

@[irreducible] def cipher : StreamCipher Rc4 UInt8 where
  next := advance
  mix r b := b ^^^ r.keyByte
  mix_mix r b := by rw [UInt8.xor_assoc, UInt8.xor_self, UInt8.xor_zero]

def crypt (r : Rc4) (data : Bytes) : Bytes × Rc4 := cipher.crypt r data

end Rc4

/-! ## The socket -/

structure MseCrypto where
  active : Bool := false
  rc4 : Bool := false
  encrypt : Rc4 := {}
  decrypt : Rc4 := {}
  deriving DecidableEq, Repr

structure AsyncSocket where
  mse : Option MseCrypto := none
  readBuf : Bytes := []
  readPos : Nat := 0
  pos_le : readPos ≤ readBuf.length := by exact Nat.zero_le _
  deriving DecidableEq, Repr

/-- What an operation of a socket throws: a `system_error` or a `runtime_error`. -/
inductive SocketError where
  | network
  | runtime (what : String)
  deriving DecidableEq, Repr

structure SocketM (α : Type) where
  run : AsyncSocket → Coroutine UInt8 (Except SocketError α × AsyncSocket)

namespace SocketM

variable {α β : Type}

def next (f : α → SocketM β) :
    Except SocketError α × AsyncSocket → Coroutine UInt8 (Except SocketError β × AsyncSocket)
  | (.ok a, s) => (f a).run s
  | (.error e, s) => .done (.error e, s)

instance instMonad : Monad SocketM where
  pure a := ⟨fun s => .done (.ok a, s)⟩
  bind m f := ⟨fun s => (m.run s).bind (next f)⟩

def modify (f : AsyncSocket → α × AsyncSocket) : SocketM α :=
  ⟨fun s => .done (.ok (f s).1, (f s).2)⟩

def raise (e : SocketError) : SocketM α := ⟨fun s => .done (.error e, s)⟩

/-- An operation with a handler, which runs on the socket as the exception left it. -/
def handle (handler : SocketM α) :
    Except SocketError α × AsyncSocket → Coroutine UInt8 (Except SocketError α × AsyncSocket)
  | (.ok a, s) => .done (.ok a, s)
  | (.error _, s) => handler.run s

def tryCatch (m handler : SocketM α) : SocketM α := ⟨fun s => (m.run s).bind (handle handler)⟩

end SocketM

namespace AsyncSocket

open SocketM (modify raise)

def unread (s : AsyncSocket) : Bytes := s.readBuf.drop s.readPos

def encrypting (s : AsyncSocket) : Option MseCrypto :=
  s.mse.filter fun c => c.active && c.rc4

/-! ### Writing -/

def encryptOutgoing (s : AsyncSocket) (frame : Bytes) : Bytes × AsyncSocket :=
  match s.encrypting with
  | some c =>
    let r := c.encrypt.crypt frame
    (r.1, { s with mse := some { c with encrypt := r.2 } })
  | none => (frame, s)

def enqueueWrite (frame : Bytes) : SocketM Unit := ⟨fun s =>
  let r := s.encryptOutgoing frame
  .write r.1 fun ok => .done (if ok then .ok () else .error .network, r.2)⟩

def sendRaw (data : Bytes) : SocketM Unit := enqueueWrite data

/-- The frame that `send_message` makes of a message; an empty one is a keep-alive. -/
def frame (message : Bytes) : Bytes :=
  if message = [] then [0, 0, 0, 0]
  else hostToNetworkLong (UInt32.ofNat message.length) ++ message

def sendMessage (message : Bytes) : SocketM Unit := enqueueWrite (frame message)

/-! ### Reading -/

def append (s : AsyncSocket) (chunk : Bytes) : AsyncSocket :=
  if compactThreshold ≤ s.readPos then
    { s with readBuf := (s.readBuf ++ chunk).drop s.readPos, readPos := 0,
             pos_le := Nat.zero_le _ }
  else
    { s with readBuf := s.readBuf ++ chunk,
             pos_le := s.pos_le.trans (List.sublist_append_left ..).length_le }

/-- The loop of `fill_buffer`. A chunk is not empty: a pass for each missing byte is enough. -/
def fillLoop (need : Nat) : Nat → SocketM Unit
  | 0 => pure ()
  | fuel + 1 => ⟨fun s =>
    if need ≤ s.unread.length then .done (.ok (), s)
    else .read fun
      | .chunk [] => .done (.error .network, s)
      | .chunk chunk => (fillLoop need fuel).run (s.append chunk)
      | .closed => .done (.error .network, s)
      | .expired => .done (.error .network, s)⟩

def fillBuffer (need : Nat) : SocketM Unit := ⟨fun s =>
  (fillLoop need (need - s.unread.length)).run s⟩

/-- `n` bytes of the buffer count as consumed. The code never consumes more than are there. -/
def advance (s : AsyncSocket) (n : Nat) : AsyncSocket :=
  { s with readPos := min (s.readPos + n) s.readBuf.length, pos_le := Nat.min_le_right .. }

def consumeBytes (n : Nat) : SocketM Bytes := modify fun s => (s.unread.take n, s.advance n)

def decryptIncoming (data : Bytes) : SocketM Bytes := modify fun s =>
  match s.encrypting with
  | some c =>
    let r := c.decrypt.crypt data
    (r.1, { s with mse := some { c with decrypt := r.2 } })
  | none => (data, s)

def receiveRaw (size : Nat) : SocketM Bytes := do
  fillBuffer size
  let out ← consumeBytes size
  decryptIncoming out

def receiveMessage : SocketM Bytes := do
  fillBuffer 4
  let lenBytes ← consumeBytes 4
  let lenBytes ← decryptIncoming lenBytes
  let length := (networkToHostLong lenBytes 0).toNat
  if maxMessageSize < length then
    raise (.runtime ("Message size limit exceeded: " ++ toString length))
  else if length = 0 then
    pure []
  else do
    fillBuffer length
    let buffer ← consumeBytes length
    decryptIncoming buffer

def sendMessages : List Bytes → SocketM Unit
  | [] => pure ()
  | m :: ms => do
    sendMessage m
    sendMessages ms

def receiveMessages : Nat → SocketM (List Bytes)
  | 0 => pure []
  | n + 1 => do
    let m ← receiveMessage
    let ms ← receiveMessages n
    pure (m :: ms)

end AsyncSocket

end P2P
