import P2P.Native.Connections

/-!
# Two sessions that connect to each other

Two peers have connected to each other, and each calls `handle_new_connection` for both connections,
in an order of its own.
-/

namespace P2P

inductive Side where
  | a
  | b
  deriving DecidableEq, Repr

def Side.other : Side → Side
  | .a => .b
  | .b => .a

inductive Link where
  | c1
  | c2
  deriving DecidableEq, Repr

def Link.object : Link → Nat
  | .c1 => 0
  | .c2 => 1

/-- The two peers: their ids, the address each has for the other, and their limits. -/
structure OpenConfig where
  peerId : Side → Bytes
  peerAddr : Side → Link → Bytes
  maxTotal : Side → Nat
  maxPerIp : Side → Nat

def OpenConfig.conn (cfg : OpenConfig) (s : Side) (c : Link) : Conn :=
  ⟨c.object, cfg.peerId s.other, cfg.peerAddr s c⟩

structure OpenEnd where
  manager : PeerManager
  handled : List Link := []

inductive OpenStep where
  | handle (s : Side) (c : Link)
  | disconnect (s : Side) (c : Link)
  deriving DecidableEq

namespace OpenStep

variable (cfg : OpenConfig)

def start : Side → OpenEnd := fun s =>
  { manager := { maxTotalConnections := cfg.maxTotal s, maxConnectionsPerIp := cfg.maxPerIp s } }

def step (p : Side → OpenEnd) : OpenStep → Option (Side → OpenEnd)
  | .handle s c =>
    if c ∈ (p s).handled then none
    else some (Function.update p s {
      manager := ((p s).manager.handleNewConnection (cfg.peerId s) (cfg.conn s c)).2
      handled := (p s).handled ++ [c] })
  | .disconnect s c =>
    if c.object ∈ (p s).manager.closed ∨ c.object ∈ (p s.other).manager.closed then
      some (Function.update p s { p s with
        manager := (p s).manager.onDisconnect (cfg.conn s c) })
    else none

def run : List OpenStep → (Side → OpenEnd) → Option (Side → OpenEnd) := runSteps (step cfg)

end OpenStep

end P2P
