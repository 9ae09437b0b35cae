import P2P.ForStd.Bitfield
import P2P.ForStd.Buckets
import P2P.Native.SessionState

/-!
# Who has which piece (`TorrentSession.cpp`, `PieceManager.cpp`, `PeerConnection.hpp`)

A connection keeps the pieces of its peer as a bitfield. The piece manager counts the peers of each
piece, and sorts the pieces into buckets by that number.
-/

namespace P2P

open List

/-! ## A connection -/

structure PeerInventory where
  bitfield : Bytes := []
  peerHasAllHint : Bool := false
  inventoryPendingMetadata : Bool := false
  deriving DecidableEq, Repr

namespace PeerInventory

def hasPiece (conn : PeerInventory) (index : Nat) : Bool := Bitfield.get conn.bitfield index

def setHasPiece (conn : PeerInventory) (index : Nat) : PeerInventory :=
  { conn with bitfield := Bitfield.set conn.bitfield index }

end PeerInventory

/-! ## The session and its piece manager -/

def inProgressRarityGroupId : Nat := 2 ^ 32 - 1

structure Inventory where
  pieceStatus : List PieceStatus
  pieceAvailability : List Nat
  piecesByRarity : Buckets Nat Nat := OrdMap.empty

namespace Inventory

variable (inv : Inventory)

def numPieces : Nat := inv.pieceStatus.length

def status (i : Nat) : PieceStatus := inv.pieceStatus[i]?.getD .needed

def setStatus (i : Nat) (status : PieceStatus) : Inventory :=
  { inv with pieceStatus := inv.pieceStatus.set i status }

def availability (i : Nat) : Nat := inv.pieceAvailability[i]?.getD 0

def addPieceAvailability (i : Nat) (val : Int) : Inventory :=
  { inv with
    pieceAvailability := inv.pieceAvailability.set i
      (((inv.availability i : Int) + val) % 2 ^ 64).toNat }

/-- The buckets hold `static_cast<int>(piece_index)`: here the `size_t` it becomes again. -/
def castInt (i : Nat) : Nat := (Int.bmod i (2 ^ 32) % 2 ^ 64).toNat

def updatePieceRarity (i oldRarity newRarity : Nat) : Inventory :=
  { inv with piecesByRarity := Buckets.move inv.piecesByRarity (castInt i) oldRarity newRarity }

def targetRarity (i : Nat) : Option Nat :=
  match inv.status i with
  | .have_ => some 0
  | .needed => some (u32 (inv.availability i))
  | .inProgress => some inProgressRarityGroupId
  | .skipped => none

def buildPieceRarity : Inventory :=
  let inv := { inv with
    pieceAvailability := inv.pieceAvailability ++
      replicate (inv.numPieces - inv.pieceAvailability.length) 0 }
  { inv with
    piecesByRarity := (range inv.numPieces).foldl (fun buckets i =>
      match inv.targetRarity i with
      | some rarity => Buckets.put buckets (castInt i) rarity
      | none => buckets) OrdMap.empty }

/-- `on_peer_has_piece`, `on_peer_has_all` and `on_peer_bitfield` for one piece of the peer. -/
def countPiece (i : Nat) : Inventory :=
  -- a piece that we have stays in its bucket
  if inv.status i = .have_ then inv.addPieceAvailability i 1
  else
    let oldRarity := u32 (inv.availability i)
    let inv := inv.addPieceAvailability i 1
    inv.updatePieceRarity i oldRarity (u32 (inv.availability i))

def uncountPiece (i : Nat) : Inventory :=
  -- here a piece that we have is moved like any other
  let oldRarity := u32 (inv.availability i)
  let inv := inv.addPieceAvailability i (-1)
  inv.updatePieceRarity i oldRarity (u32 (inv.availability i))

def expectedBitfieldSize : Nat := (inv.numPieces + 7) / 8

def onPeerHasPiece (conn : PeerInventory) (pieceIndex : Nat) : PeerInventory × Inventory :=
  if pieceIndex ≥ inv.numPieces then (conn, inv)
  else
    let conn := if conn.bitfield.length = 0 then
        { conn with bitfield := replicate inv.expectedBitfieldSize 0 }
      else conn
    if pieceIndex / 8 < conn.bitfield.length then
      (conn.setHasPiece pieceIndex, inv.countPiece pieceIndex)
    else (conn, inv)

def onPeerHasAll (conn : PeerInventory) : PeerInventory × Inventory :=
  if inv.numPieces = 0 then
    ({ conn with peerHasAllHint := true, inventoryPendingMetadata := true }, inv)
  else
    let conn := if conn.bitfield.length = 0 then
        { conn with bitfield := replicate inv.expectedBitfieldSize 0xFF }
      else conn
    ({ (range inv.numPieces).foldl PeerInventory.setHasPiece conn with
        inventoryPendingMetadata := false },
      (range inv.numPieces).foldl countPiece inv)

def onPeerHasNone (conn : PeerInventory) : PeerInventory × Inventory := (conn, inv)

def onPeerBitfield (conn : PeerInventory) (bitfield : Bytes) : PeerInventory × Inventory :=
  if inv.numPieces = 0 then
    ({ bitfield := bitfield, peerHasAllHint := false, inventoryPendingMetadata := true }, inv)
  else if inv.expectedBitfieldSize ≠ bitfield.length then (conn, inv)
  else
    let conn := { conn with bitfield := bitfield }
    ({ conn with inventoryPendingMetadata := false },
      ((range inv.numPieces).filter conn.hasPiece).foldl countPiece inv)

def onDisconnect (conn : PeerInventory) : Inventory :=
  ((range inv.numPieces).filter conn.hasPiece).foldl uncountPiece inv

def startPiece (i : Nat) : Inventory :=
  let inv := inv.setStatus i .inProgress
  inv.updatePieceRarity i (u32 (inv.availability i)) inProgressRarityGroupId

def completePiece (i : Nat) : Inventory := inv.setStatus i .have_

def returnPieceToQueue (i : Nat) : Inventory :=
  let inv := inv.setStatus i .needed
  inv.updatePieceRarity i inProgressRarityGroupId (u32 (inv.availability i))

/-- The candidates of `request_one_piece` bucket by bucket; `shuffle` orders each of them. -/
def rarestFirst (shuffle : Finset Nat → List Nat) : List Nat :=
  (inv.piecesByRarity.entries.filter fun e => e.1 ≠ 0).flatMap fun e => shuffle e.2

def reconcile (conn : PeerInventory) : PeerInventory × Inventory :=
  if !conn.inventoryPendingMetadata then (conn, inv)
  else if conn.peerHasAllHint then inv.onPeerHasAll conn
  else if conn.bitfield.isEmpty then ({ conn with inventoryPendingMetadata := false }, inv)
  -- the connection is closed, and the flag stays
  else if conn.bitfield.length ≠ inv.expectedBitfieldSize then (conn, inv)
  else inv.onPeerBitfield conn conn.bitfield

end Inventory

/-! ## Connections that come and go -/

/-- A connection; `disconnected`: an `on_disconnect` has run for it. -/
structure InventoryConn where
  conn : PeerInventory := {}
  disconnected : Bool := false
  deriving DecidableEq, Repr

structure InventoryRun where
  inventory : Inventory
  conns : List InventoryConn := []

inductive InventoryStep where
  | connect
  | onPeerHasPiece (k pieceIndex : Nat)
  | onPeerHasAll (k : Nat)
  | onPeerHasNone (k : Nat)
  | onPeerBitfield (k : Nat) (bitfield : Bytes)
  | onDisconnect (k : Nat)
  | startPiece (i : Nat)
  | completePiece (i : Nat)
  | returnPieceToQueue (i : Nat)
  deriving Repr

namespace InventoryRun

def start (pieceStatus : List PieceStatus) : InventoryRun where
  inventory := Inventory.buildPieceRarity {
    pieceStatus := pieceStatus
    pieceAvailability := replicate pieceStatus.length 0 }

variable (r : InventoryRun)

def handle (k : Nat) (handler : PeerInventory → PeerInventory × Inventory) : Option InventoryRun :=
  r.conns[k]?.map fun c =>
    { inventory := (handler c.conn).2
      conns := r.conns.set k { c with conn := (handler c.conn).1 } }

end InventoryRun

namespace InventoryStep

def step (r : InventoryRun) : InventoryStep → Option InventoryRun
  | .connect => some { r with conns := r.conns ++ [{}] }
  | .onPeerHasPiece k pieceIndex =>
    r.handle k fun conn => r.inventory.onPeerHasPiece conn pieceIndex
  | .onPeerHasAll k => r.handle k r.inventory.onPeerHasAll
  | .onPeerHasNone k => r.handle k r.inventory.onPeerHasNone
  | .onPeerBitfield k bitfield =>
    r.handle k fun conn => r.inventory.onPeerBitfield conn bitfield
  | .onDisconnect k =>
    r.conns[k]?.map fun c =>
      { inventory := r.inventory.onDisconnect c.conn
        conns := r.conns.set k { c with disconnected := true } }
  | .startPiece i => some { r with inventory := r.inventory.startPiece i }
  | .completePiece i => some { r with inventory := r.inventory.completePiece i }
  | .returnPieceToQueue i => some { r with inventory := r.inventory.returnPieceToQueue i }

def run : List InventoryStep → InventoryRun → Option InventoryRun := runSteps step

end InventoryStep

/-! ## Magnet links -/

inductive LateMetadataStep where
  | event (st : InventoryStep)
  | loadMetadata (numPieces : Nat)
  | buildPieceRarity
  | reconcile (k : Nat)
  deriving Repr

namespace LateMetadataStep

def start : InventoryRun where
  inventory := { pieceStatus := [], pieceAvailability := [] }

def step (r : InventoryRun) : LateMetadataStep → Option InventoryRun
  | .event st => InventoryStep.step r st
  | .loadMetadata numPieces =>
    if r.inventory.numPieces = 0 then
      some { r with inventory :=
        { r.inventory with pieceStatus := replicate numPieces .needed } }
    else none
  | .buildPieceRarity => some { r with inventory := r.inventory.buildPieceRarity }
  | .reconcile k =>
    if r.inventory.numPieces = 0 then none else r.handle k r.inventory.reconcile

def run : List LateMetadataStep → InventoryRun → Option InventoryRun := runSteps step

end LateMetadataStep

end P2P
