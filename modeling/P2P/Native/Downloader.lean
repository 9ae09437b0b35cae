import Mathlib.Data.List.Rotate
import P2P.Native.SessionState

/-!
# The downloader (`PieceManager::downloader`)

The loop keeps a window of pieces in progress.
-/

namespace P2P

def piecesPerPeer : Nat := 4

def maxInFlightPieces : Nat := 256

def maxPiecesPerPrimary : Nat := 4

def maxSpawnsPerWake : Nat := 32

inductive FillKind where
  | requestOnePiece
  | trySeedToPrimary (primary : Bytes)
  deriving DecidableEq, Repr

inductive FillStage where
  | choosing
  /-- In `try_piece_download`: the piece was needed, and its peers are awaited. -/
  | awaitingPeers (piece : Nat)
  /-- The piece has been added; its primary peer has been chosen and is not set yet. -/
  | added (piece : Nat) (primary : Bytes)
  deriving DecidableEq, Repr

structure Fill where
  kind : FillKind
  stage : FillStage := .choosing
  deriving DecidableEq, Repr

structure Downloader where
  status : List PieceStatus
  inProgressPieces : OrdMap Nat (Option Bytes) := OrdMap.empty
  primaryRotor : Nat := 0
  fills : List Fill := []

namespace Downloader

variable (s : Downloader)

def neededPieces : Nat := s.status.countP (· = .needed)

def maxInProgressPieces (unchoked : Nat) : Nat :=
  min (max (max unchoked 1 * piecesPerPeer) 8) maxInFlightPieces

def held : OrdMap Bytes Nat :=
  s.inProgressPieces.entries.foldl (fun held e =>
    match e.2 with
    | none => held
    | some peer => held.insert peer ((held.get? peer).getD 0 + 1)) OrdMap.empty

def budgetLoop (proven : Bytes → Bool) : List (Bytes × Nat) → Nat → List Fill
  | [], _ => []
  | (peer, count) :: rest, spawned =>
    if count ≥ maxPiecesPerPrimary then budgetLoop proven rest spawned
    else if spawned ≥ maxSpawnsPerWake then []
    else if !proven peer then budgetLoop proven rest spawned
    else { kind := .trySeedToPrimary peer } :: budgetLoop proven rest (spawned + 1)

def budgetFills (proven : Bytes → Bool) : List Fill :=
  let entries := s.held.entries
  budgetLoop proven (entries.rotate (s.primaryRotor % entries.length)) 0

def slotsToFill (unchoked spawnedBudget : Nat) : Nat :=
  let window := maxInProgressPieces unchoked
  let current := s.inProgressPieces.entries.length
  let slots := if current < window then min (window - current) s.neededPieces else 0
  min slots (maxSpawnsPerWake - spawnedBudget)

def spawned (unchoked : Nat) (proven : Bytes → Bool) : List Fill :=
  let budget := s.budgetFills proven
  budget ++ List.replicate (s.slotsToFill unchoked budget.length) { kind := .requestOnePiece }

def wake (unchoked : Nat) (proven : Bytes → Bool) : Downloader :=
  { s with
    -- `fetch_add` is only reached when some piece has a primary peer
    primaryRotor := if s.held.entries = [] then s.primaryRotor else s.primaryRotor + 1
    fills := s.fills ++ s.spawned unchoked proven }

def goTo (i : Nat) (fill : Fill) (stage : FillStage) : Downloader :=
  { s with fills := s.fills.set i { fill with stage } }

def finish (i : Nat) : Downloader := { s with fills := s.fills.eraseIdx i }

/-- The preferred peer if it has the piece, or one that delivered or unchoked us lately, or any. -/
def choosePrimary (kind : FillKind) (available : List Bytes) (eligible : Bytes → Bool) :
    Option Bytes :=
  let fromPool :=
    let pool := available.filter eligible
    let pool := if pool = [] then available else pool
    pool[s.primaryRotor % pool.length]?
  match kind with
  | .requestOnePiece => fromPool
  | .trySeedToPrimary primary => if primary ∈ available then some primary else fromPool

def addPiece (piece : Nat) : Downloader :=
  { s with
    status := s.status.set piece .inProgress
    inProgressPieces := s.inProgressPieces.emplace piece none }

def setPrimary (piece : Nat) (primary : Option Bytes) : Downloader :=
  if s.inProgressPieces.contains piece then
    { s with inProgressPieces := s.inProgressPieces.insert piece primary }
  else s

def onPeers (i : Nat) (fill : Fill) (piece : Nat) (available : List Bytes)
    (eligible : Bytes → Bool) : Downloader :=
  match s.choosePrimary fill.kind available eligible with
  | none => s.goTo i fill .choosing
  | some primary =>
    { (s.addPiece piece).goTo i fill (.added piece primary) with
      -- the rotor moves on when the primary is not the preferred one
      primaryRotor :=
        if fill.kind = .trySeedToPrimary primary then s.primaryRotor else s.primaryRotor + 1 }

end Downloader

/-- A wake of the loop, a step of a coroutine it has spawned, or of other parts of the session. -/
inductive DownloadStep where
  | wake (unchoked : Nat) (proven : Bytes → Bool)
  | tryPiece (fill : Nat) (piece : Nat)
  | peers (fill : Nat) (available : List Bytes) (eligible : Bytes → Bool)
  | assign (fill : Nat)
  | giveUp (fill : Nat)
  | setStatus (piece : Nat) (status : PieceStatus)
  | remove (piece : Nat)
  | removeAll
  | demote (piece : Nat)

namespace Downloader

def step (s : Downloader) : DownloadStep → Option Downloader
  | .wake unchoked proven => some (s.wake unchoked proven)
  | .tryPiece i piece =>
    match s.fills[i]? with
    | some ⟨kind, .choosing⟩ =>
      if s.status[piece]? = some .needed then
        some (s.goTo i ⟨kind, .choosing⟩ (.awaitingPeers piece))
      else some s
    | _ => none
  | .peers i available eligible =>
    match s.fills[i]? with
    | some ⟨kind, .awaitingPeers piece⟩ =>
      some (s.onPeers i ⟨kind, .awaitingPeers piece⟩ piece available eligible)
    | _ => none
  | .assign i =>
    match s.fills[i]? with
    | some ⟨_, .added piece primary⟩ => some ((s.setPrimary piece (some primary)).finish i)
    | _ => none
  | .giveUp i =>
    match s.fills[i]? with
    | some ⟨_, .choosing⟩ => some (s.finish i)
    | _ => none
  | .setStatus piece status => some { s with status := s.status.set piece status }
  | .remove piece => some { s with inProgressPieces := s.inProgressPieces.erase piece }
  | .removeAll => some { s with inProgressPieces := OrdMap.empty }
  | .demote piece => some (s.setPrimary piece none)

end Downloader

end P2P
