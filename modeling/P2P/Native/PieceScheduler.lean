import Mathlib.Algebra.GroupWithZero.Nat
import P2P.ForStd.Bytes

/-!
# Moving requests to other peers (`PieceManager.cpp`)

`check_block_timeouts` asks another peer for a block that has waited too long, `tail_scheduler_pass`
asks more peers for the blocks of pieces that are stuck.
-/

namespace P2P

def seconds (n : Nat) : Nat := n * 1000000000

structure TimedBlock where
  received : Bool := false
  outstanding : List Bytes := []
  requestTime : Nat := 0
  rejectedBy : List (Bytes × Nat) := []
  deriving DecidableEq, Repr

/-- What `pick_block_peer` reads: the regime and the clock for the rejections, then the clock for
the evidence, the peers, their last blocks and unchokes. -/
structure PeerView where
  tail : Bool
  rejectionClock : Nat
  evidenceClock : Nat
  available : List Bytes
  activity : Bytes → Option Nat
  unchokedAt : Bytes → Nat

def PeerView.isProven (v : PeerView) (p : Bytes) : Bool :=
  (v.activity p).any fun last => v.evidenceClock - last < seconds 300

def PeerView.isFresh (v : PeerView) (p : Bytes) : Bool :=
  !v.isProven p && v.unchokedAt p != 0 && v.evidenceClock - v.unchokedAt p < seconds 45

/-- The time for which a rejection counts: `kRejectedBlockTTLTail` or `kRejectedBlockTTL`. -/
def rejectedBlockTtl (tail : Bool) : Nat := if tail then seconds 20 else seconds 60

namespace TimedBlock

variable (b : TimedBlock) (now : Nat) (tail : Bool)

def timedOut (activity : Bytes → Option Nat) : Bool :=
  let window := if tail then seconds 300 else seconds 30
  let stillActive := b.outstanding.any fun p => (activity p).any fun last => now - last < window
  !b.received && b.requestTime != 0 && now - b.requestTime > seconds 4 &&
    (!stillActive || now - b.requestTime > seconds 60)

def cancelled : TimedBlock := { b with outstanding := [], requestTime := 0 }

def prunedRejectedPeers : List Bytes :=
  (b.rejectedBy.filter fun entry => ¬ now - entry.2 > rejectedBlockTtl tail).map Prod.fst

def candidates (excludePeer : Option Bytes) (v : PeerView) : List Bytes :=
  v.available.filter fun p =>
    excludePeer != some p && !(b.prunedRejectedPeers v.rejectionClock v.tail).contains p &&
      !b.outstanding.contains p

def pickFrom (excludePeer : Option Bytes) (v : PeerView) (explore : Bool) : List Bytes :=
  let candidates := b.candidates excludePeer v
  let proven := candidates.filter v.isProven
  let fresh := candidates.filter v.isFresh
  if fresh ≠ [] ∧ explore then fresh
  else if proven ≠ [] then proven
  else if fresh ≠ [] then fresh
  else candidates

/-- The random numbers are `explore` and `index`. -/
def pickBlockPeer (excludePeer : Option Bytes) (v : PeerView) (explore : Bool) (index : Nat) :
    Option Bytes :=
  let pickFrom := b.pickFrom excludePeer v explore
  pickFrom[index % pickFrom.length]?

/-- About a block that has timed out: another peer is asked, or the resumer is started. -/
inductive Timeout where
  | request (peerId : Bytes)
  | resume
  deriving DecidableEq, Repr

/-- `check_block_timeouts` for a block; `none` when it has not timed out. `later` is the block as
`pick_block_peer` finds it after the callback, if the piece is still in progress. -/
def checkTimeout (activity : Bytes → Option Nat) (later : Option TimedBlock) (v : PeerView)
    (explore : Bool) (index : Nat) : Option Timeout :=
  if b.timedOut now tail activity then
    match later.bind (·.pickBlockPeer b.outstanding.head? v explore index) with
    | some p => some (.request p)
    | none => some .resume
  else none

end TimedBlock

def tailBlocksPerPeer : Nat := 24

structure TimedPiece where
  blocks : List TimedBlock
  lastProgress : Nat
  deriving DecidableEq, Repr

def TimedPiece.isStuck (now : Nat) (p : TimedPiece) : Bool :=
  p.lastProgress != 0 && now - p.lastProgress > seconds 10

def TimedBlock.isOpen (now : Nat) (peerId : Bytes) (b : TimedBlock) : Bool :=
  !b.received && !b.outstanding.contains peerId &&
    !b.rejectedBy.any fun entry => entry.1 == peerId && now - entry.2 < seconds 20

def TimedBlock.addOwner (b : TimedBlock) (peerId : Bytes) : TimedBlock :=
  { b with outstanding := b.outstanding ++ [peerId] }

/-- The loop that finds the block with the fewest owners: its number and theirs. -/
def bestBlock (now : Nat) (peerId : Bytes) (best : Option (Nat × Nat)) :
    List (TimedBlock × Nat) → Option (Nat × Nat)
  | [] => best
  | (b, i) :: blocks =>
    let isBetter := b.isOpen now peerId && best.all fun best => b.outstanding.length < best.2
    bestBlock now peerId (if isBetter then some (i, b.outstanding.length) else best) blocks

/-- A block is given to a peer; `before` are the blocks of the piece at that moment. -/
structure Assignment where
  piece : Nat
  block : Nat
  peerId : Bytes
  before : List TimedBlock

/-- The pieces in progress by number, the requests counted for each peer, and the assignments. -/
structure TailPass where
  pieces : List TimedPiece
  perPeerOutstanding : Bytes → Nat
  assigned : List Assignment := []

def outstandingOf (pieces : List TimedPiece) (peerId : Bytes) : Nat :=
  (pieces.map fun p => (p.blocks.map fun b => b.outstanding.count peerId).sum).sum

def TailPass.offer (now k : Nat) (s : TailPass) (peerId : Bytes) : TailPass :=
  if s.perPeerOutstanding peerId ≥ tailBlocksPerPeer then s
  else match s.pieces[k]? with
    | none => s
    | some p =>
      match bestBlock now peerId none p.blocks.zipIdx with
      | none => s
      | some (block, _) =>
        { pieces := s.pieces.set k { p with blocks := p.blocks.modify block (·.addOwner peerId) }
          perPeerOutstanding :=
            Function.update s.perPeerOutstanding peerId (s.perPeerOutstanding peerId + 1)
          assigned := s.assigned ++ [⟨k, block, peerId, p.blocks⟩] }

abbrev HolderSort : Type :=
  (perPeerOutstanding : Bytes → Nat) → (holders : List Bytes) →
    { sorted : List Bytes // sorted.Perm holders }

def TailPass.serve (now : Nat) (available : Nat → List Bytes) (sort : HolderSort) (s : TailPass)
    (k : Nat) : TailPass :=
  (sort s.perPeerOutstanding (available k)).1.foldl (TailPass.offer now k) s

def tailSchedulerPass (now : Nat) (available : Nat → List Bytes) (sort : HolderSort)
    (pieces : List TimedPiece) : TailPass :=
  let stuck := (List.range pieces.length).filter fun k => pieces[k]?.any (·.isStuck now)
  stuck.foldl (TailPass.serve now available sort)
    { pieces := pieces, perPeerOutstanding := outstandingOf pieces }

end P2P
