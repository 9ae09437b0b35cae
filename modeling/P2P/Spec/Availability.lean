import P2P.ForStd.Tasks
import P2P.Spec.Inventory

/-!
# The availability of a piece

The handlers add one for every message that announces a piece, and every `on_disconnect` takes its
peer's pieces off.
-/

namespace P2P

open InventoryConn InventoryStep List Inventory Bool Option

def InventoryConn.holds (i : Nat) (c : InventoryConn) : Bool :=
  !c.disconnected && c.conn.hasPiece i

def InventoryConn.Blank (c : InventoryConn) (numPieces : Nat) : Prop :=
  c.disconnected = false ∧ ∀ i < numPieces, c.conn.hasPiece i = false

instance InventoryConn.Blank.decidable (c : InventoryConn) (numPieces : Nat) :
    Decidable (c.Blank numPieces) :=
  inferInstanceAs (Decidable (_ ∧ ∀ i < numPieces, _))

/-- Messages come on live connections and announce new pieces of the peer, and a connection is
    disconnected once. -/
def InventoryStep.Counts (r : InventoryRun) : InventoryStep → Prop
  | .connect => r.conns.length + 1 < 2 ^ 64
  | .onPeerHasPiece k i =>
    i < r.inventory.numPieces → ∀ c ∈ r.conns[k]?, c.disconnected = false ∧
      c.conn.hasPiece i = false
  | .onPeerHasAll k => ∀ c ∈ r.conns[k]?, c.Blank r.inventory.numPieces
  | .onPeerBitfield k bitfield =>
    r.inventory.expectedBitfieldSize = bitfield.length →
      ∀ c ∈ r.conns[k]?, c.Blank r.inventory.numPieces
  | .onDisconnect k => ∀ c ∈ r.conns[k]?, c.disconnected = false
  | _ => True

instance InventoryStep.Counts.decidable (r : InventoryRun) :
    ∀ st, Decidable (InventoryStep.Counts r st) := by
  intro st
  unfold InventoryStep.Counts
  split <;> infer_instance

namespace InventoryRun

structure Counted (n : Nat) (r : InventoryRun) : Prop where
  pieces : r.inventory.numPieces = n
  size : r.inventory.pieceAvailability.length = n
  sized : ∀ c ∈ r.conns, c.conn.Sized r.inventory.expectedBitfieldSize
  bound : r.conns.length < 2 ^ 64
  eq : ∀ i < n, r.inventory.availability i = r.conns.countP (holds i)

variable {n : Nat} {r : InventoryRun}

theorem Counted.countP_lt (hr : r.Counted n) {conns : List InventoryConn}
    (hlen : conns.length = r.conns.length) (i : Nat) : conns.countP (holds i) < 2 ^ 64 :=
  countP_le_length.trans_lt (hlen ▸ hr.bound)

variable {k : Nat} {c : InventoryConn}

section

variable (hr : r.Counted n)

include hr

theorem Counted.update (hc : r.conns[k]? = some c) (c' : InventoryConn) {inv : Inventory}
    (hpieces : inv.numPieces = r.inventory.numPieces)
    (hsize : inv.pieceAvailability.length = r.inventory.pieceAvailability.length)
    (hsized : c'.conn.Sized r.inventory.expectedBitfieldSize)
    (hcount : ∀ i < n, ∀ count < 2 ^ 64, count + (c.holds i).toNat =
      r.inventory.availability i + (c'.holds i).toNat → inv.availability i = count) :
    Counted n { inventory := inv, conns := r.conns.set k c' } := by
  have hexpected : inv.expectedBitfieldSize = r.inventory.expectedBitfieldSize := by
    unfold expectedBitfieldSize
    rw [hpieces]
  have hlen : (r.conns.set k c').length = r.conns.length := length_set
  refine ⟨hpieces.trans hr.pieces, hsize.trans hr.size, ?_, hlen ▸ hr.bound, fun i hi => ?_⟩
  · show ∀ d ∈ r.conns.set k c', d.conn.Sized inv.expectedBitfieldSize
    rw [hexpected]
    exact forall_mem_set hr.sized hsized
  · refine hcount i hi _ (hr.countP_lt hlen i) ?_
    rw [hr.eq i hi]
    exact countP_set_add hc c' (holds i)

theorem Counted.same (hc : r.conns[k]? = some c) :
    Counted n { inventory := r.inventory, conns := r.conns.set k { c with conn := c.conn } } := by
  refine hr.update hc c rfl rfl (hr.sized c (mem_of_getElem? hc)) fun i hi count hlt h => ?_
  omega

theorem Counted.move {pieceStatus : List PieceStatus}
    (hlen : pieceStatus.length = r.inventory.pieceStatus.length) (rarity : Buckets Nat Nat) :
    Counted n { r with
      inventory := { r.inventory with pieceStatus := pieceStatus, piecesByRarity := rarity } } := by
  have hexpected : (pieceStatus.length + 7) / 8 = r.inventory.expectedBitfieldSize := by
    rw [hlen]
    rfl
  refine ⟨hlen.trans hr.pieces, hr.size, fun c hc => ?_, hr.bound, hr.eq⟩
  show c.conn.Sized ((pieceStatus.length + 7) / 8)
  rw [hexpected]
  exact hr.sized c hc

theorem Counted.disconnect (hc : r.conns[k]? = some c) (hlive : c.disconnected = false) :
    Counted n {
      inventory := r.inventory.onDisconnect c.conn
      conns := r.conns.set k { c with disconnected := true } } := by
  have hmem : ∀ i, i ∈ (List.range r.inventory.numPieces).filter c.conn.hasPiece ↔
      i < n ∧ c.conn.hasPiece i = true := by
    intro i
    rw [mem_filter, mem_range, hr.pieces]
  obtain ⟨hstatus, hsize, havail⟩ := availability_foldl uncountPiece_eq
    (nodup_range.filter c.conn.hasPiece) r.inventory
    fun i hi => hr.size ▸ ((hmem i).mp hi).1
  refine hr.update hc _ (congrArg length hstatus) hsize
    (hr.sized c (mem_of_getElem? hc)) fun i hi count hlt h => ?_
  unfold Inventory.onDisconnect
  rw [havail]
  simp only [holds, hlive, Bool.not_false, Bool.true_and, Bool.not_true,
    Bool.false_and, Bool.toNat_false] at h
  cases hhas : c.conn.hasPiece i with
  | true =>
    rw [hhas, Bool.toNat_true] at h
    rw [if_pos ((hmem i).mpr ⟨hi, hhas⟩)]
    omega
  | false =>
    rw [hhas, Bool.toNat_false] at h
    rw [if_neg fun hin => false_ne_true (hhas.symm.trans ((hmem i).mp hin).2)]
    omega

theorem Counted.announce (hc : r.conns[k]? = some c) (hlive : c.disconnected = false)
    {conn : PeerInventory} {l : List Nat} (hnodup : l.Nodup) (hl : ∀ i ∈ l, i < n)
    (hsized : conn.bitfield.length = r.inventory.expectedBitfieldSize)
    (hbits : ∀ i < n, conn.hasPiece i = (c.conn.hasPiece i || decide (i ∈ l)))
    (hnew : ∀ i ∈ l, c.conn.hasPiece i = false) :
    Counted n {
      inventory := l.foldl Inventory.countPiece r.inventory
      conns := r.conns.set k { c with conn := conn } } := by
  obtain ⟨hstatus, hsize, havail⟩ := availability_foldl countPiece_eq hnodup
    r.inventory fun i hi => hr.size ▸ hl i hi
  refine hr.update hc _ (congrArg length hstatus) hsize (.inr hsized) fun i hi count hlt h => ?_
  rw [havail]
  simp only [holds, hlive, Bool.not_false, Bool.true_and, hbits i hi] at h
  split
  · next hmem =>
    simp only [hnew i hmem, hmem, decide_true, Bool.false_or, Bool.toNat_false,
      Bool.toNat_true] at h
    omega
  · next hmem =>
    simp only [hmem, decide_false, Bool.or_false] at h
    omega

theorem Counted.connect (hbound : r.conns.length + 1 < 2 ^ 64) :
    Counted n { r with conns := r.conns ++ [{}] } := by
  refine ⟨hr.pieces, hr.size, fun c hc => ?_, ?_, fun i hi => ?_⟩
  · rcases mem_append.mp hc with hold | hnew
    · exact hr.sized c hold
    · rw [mem_singleton.mp hnew]
      exact .inl rfl
  · show (r.conns ++ [_]).length < 2 ^ 64
    rw [length_append]
    exact hbound
  · show _ = (r.conns ++ [_]).countP _
    rw [countP_append, ← hr.eq i hi]
    rfl

theorem Counted.onPeerHasPiece {i : Nat} (hc : r.conns[k]? = some c)
    (hok : i < r.inventory.numPieces → c.disconnected = false ∧ c.conn.hasPiece i = false) :
    Counted n {
      inventory := (r.inventory.onPeerHasPiece c.conn i).2
      conns := r.conns.set k { c with conn := (r.inventory.onPeerHasPiece c.conn i).1 } } := by
  by_cases hi : i < r.inventory.numPieces
  · obtain ⟨hlive, hnew⟩ := hok hi
    have hsized := hr.sized c (mem_of_getElem? hc)
    obtain ⟨hlen, hbits⟩ := onPeerHasPiece_bits hi hsized
    have hinv : (r.inventory.onPeerHasPiece c.conn i).2 =
        [i].foldl Inventory.countPiece r.inventory := by
      rw [onPeerHasPiece_eq hi hsized]
      rfl
    rw [hinv]
    refine hr.announce hc hlive (nodup_singleton i) ?_ hlen ?_ ?_
    · simpa [← hr.pieces] using hi
    · intro j _
      rw [hbits]
      simp [eq_comm]
    · simpa using hnew
  · -- a piece that the torrent does not have
    have hsame : r.inventory.onPeerHasPiece c.conn i = (c.conn, r.inventory) := by
      unfold Inventory.onPeerHasPiece
      exact if_pos (not_lt.mp hi)
    simp only [hsame]
    exact hr.same hc

theorem Counted.onPeerHasAll (hn : r.inventory.numPieces ≠ 0) (hc : r.conns[k]? = some c)
    (hblank : c.Blank r.inventory.numPieces) :
    Counted n {
      inventory := (r.inventory.onPeerHasAll c.conn).2
      conns := r.conns.set k { c with conn := (r.inventory.onPeerHasAll c.conn).1 } } := by
  obtain ⟨hlive, hnone⟩ := hblank
  obtain ⟨hlen, hbits⟩ := onPeerHasAll_bits hn (hr.sized c (mem_of_getElem? hc))
  have hinv : (r.inventory.onPeerHasAll c.conn).2 =
      (List.range r.inventory.numPieces).foldl Inventory.countPiece r.inventory := by
    unfold Inventory.onPeerHasAll
    rw [if_neg hn]
  rw [hinv]
  rw [hr.pieces] at hnone hbits ⊢
  refine hr.announce hc hlive nodup_range (fun i hi => mem_range.mp hi) hlen ?_ ?_
  · intro i hi
    simp [hbits i hi, hi]
  · exact fun i hi => hnone i (mem_range.mp hi)

theorem Counted.onPeerBitfield (hn : r.inventory.numPieces ≠ 0) {bitfield : Bytes}
    (hc : r.conns[k]? = some c)
    (hok : r.inventory.expectedBitfieldSize = bitfield.length → c.Blank r.inventory.numPieces) :
    Counted n {
      inventory := (r.inventory.onPeerBitfield c.conn bitfield).2
      conns := r.conns.set k
        { c with conn := (r.inventory.onPeerBitfield c.conn bitfield).1 } } := by
  by_cases hlen : r.inventory.expectedBitfieldSize = bitfield.length
  · obtain ⟨hlive, hnone⟩ := hok hlen
    simp only [Inventory.onPeerBitfield, if_neg hn, if_neg (not_not.mpr hlen)]
    rw [hr.pieces] at hnone ⊢
    refine hr.announce hc hlive (nodup_range.filter _) ?_ hlen.symm ?_ ?_
    · exact fun i hi => mem_range.mp (mem_of_mem_filter hi)
    · intro i hi
      rw [hnone i hi]
      simp [hi, PeerInventory.hasPiece]
    · exact fun i hi => hnone i (mem_range.mp (mem_of_mem_filter hi))
  · simp only [Inventory.onPeerBitfield, if_neg hn, if_pos hlen]
    exact hr.same hc

end

end InventoryRun

namespace InventoryStep

open InventoryRun

variable {n : Nat}

theorem step_counted (hn : 0 < n) (r : InventoryRun) (st : InventoryStep) (r' : InventoryRun)
    (hok : Counts r st) (h : step r st = some r') (hr : r.Counted n) : r'.Counted n := by
  have hn' : r.inventory.numPieces ≠ 0 := hr.pieces ▸ hn.ne'
  cases st with
  | connect =>
    cases h
    exact hr.connect hok
  | onPeerHasPiece k i =>
    obtain ⟨c, hc, rfl⟩ := map_eq_some_iff.mp h
    exact hr.onPeerHasPiece hc fun hi => hok hi c hc
  | onPeerHasAll k =>
    obtain ⟨c, hc, rfl⟩ := map_eq_some_iff.mp h
    exact hr.onPeerHasAll hn' hc (hok c hc)
  | onPeerHasNone k =>
    obtain ⟨c, hc, rfl⟩ := map_eq_some_iff.mp h
    exact hr.same hc
  | onPeerBitfield k bitfield =>
    obtain ⟨c, hc, rfl⟩ := map_eq_some_iff.mp h
    exact hr.onPeerBitfield hn' hc fun hlen => hok hlen c hc
  | onDisconnect k =>
    obtain ⟨c, hc, rfl⟩ := map_eq_some_iff.mp h
    exact hr.disconnect hc (hok c hc)
  | startPiece | completePiece | returnPieceToQueue =>
    cases h
    exact hr.move length_set _

end InventoryStep

theorem InventoryRun.counted_start (pieceStatus : List PieceStatus) :
    (start pieceStatus).Counted pieceStatus.length := by
  have havail : (start pieceStatus).inventory.pieceAvailability =
      replicate pieceStatus.length 0 := by
    simp [start, buildPieceRarity, numPieces]
  refine ⟨rfl, ?_, nofun, Nat.two_pow_pos 64, fun i hi => ?_⟩
  · rw [havail, length_replicate]
  · rw [availability, havail]
    simp [hi, start]

/-- In a run whose steps meet the condition the availability of a piece is the number of live
    connections whose peer has it. -/
theorem availability_eq_live_connections (pieceStatus : List PieceStatus)
    (steps : List InventoryStep) (r : InventoryRun)
    (hcounts : StepsMeet step InventoryStep.Counts steps (.start pieceStatus))
    (hrun : run steps (.start pieceStatus) = some r) (i : Nat)
    (hi : i < pieceStatus.length) :
    r.inventory.availability i = r.conns.countP (holds i) :=
  (runSteps_invariant (step_counted (Nat.zero_lt_of_lt hi)) hcounts hrun
    (InventoryRun.counted_start pieceStatus)).eq i hi

/-- Three peers, two pieces: one peer has all, one sends a bitfield and then the other piece, one
    has nothing; the first leaves. -/
def threePeers : List InventoryStep :=
  [.connect, .connect, .connect, .onPeerHasAll 0, .onPeerBitfield 1 [0x80], .onPeerHasNone 2,
    .onPeerHasPiece 1 1, .startPiece 0, .onDisconnect 0]

theorem availability_eq_live_connections_three :
    ∃ r, run threePeers (.start [.needed, .have_]) = some r ∧
      r.conns.countP (holds 1) = 1 ∧
      r.inventory.availability 1 = r.conns.countP (holds 1) := by
  let r := (run threePeers (.start [.needed, .have_])).get (by decide +kernel)
  exact ⟨r, (some_get _).symm, by decide +kernel,
    availability_eq_live_connections [.needed, .have_] threePeers r (by decide +kernel)
      (some_get _).symm 1 (by decide)⟩

/-- A peer that announces a piece twice counts twice, and one that takes it back still counts. -/
theorem availability_miscounts :
    (run [.connect, .onPeerHasPiece 0 0, .onPeerHasPiece 0 0]
        (.start [.needed])).map (fun r =>
          (r.inventory.availability 0, r.conns.countP (holds 0))) = some (2, 1) ∧
    (run [.connect, .onPeerBitfield 0 [0x80], .onPeerBitfield 0 [0x00]]
        (.start [.needed])).map (fun r =>
          (r.inventory.availability 0, r.conns.countP (holds 0))) = some (1, 0) ∧
    (run [.connect, .onPeerHasPiece 0 0, .onDisconnect 0, .onDisconnect 0]
        (.start [.needed])).map (fun r =>
          (r.inventory.availability 0, r.conns.countP (holds 0))) =
      some (2 ^ 64 - 1, 0) := by
  decide +kernel

end P2P
