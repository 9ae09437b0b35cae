import P2P.ForStd.Tasks
import P2P.Spec.Inventory

/-!
# The inventory of a magnet link

Before the metadata has arrived a peer announces its pieces to a session that does not know how many
there are.
-/

namespace P2P

open LateMetadataStep PeerInventory List Inventory Option

namespace LateMetadataStep

def Announces (k i : Nat) : LateMetadataStep → Prop
  | .event (.onPeerHasPiece k' pieceIndex) => k' = k ∧ pieceIndex = i
  | .event (.onPeerHasAll k') => k' = k
  | .event (.onPeerBitfield k' bitfield) => k' = k ∧ Bitfield.get bitfield i = true
  | _ => False

def Silent (n : Nat) (conn : PeerInventory) : Prop :=
  conn.peerHasAllHint = false ∧ ∀ i < n, conn.hasPiece i = false

instance Silent.decidable (n : Nat) (conn : PeerInventory) : Decidable (Silent n conn) :=
  inferInstanceAs (Decidable (_ ∧ ∀ i < n, _))

/-- With `n` pieces: a `Have` message comes when the metadata is known, and a `Bitfield`, of the
    right length, from a peer that has announced nothing before. -/
def InOrder (n : Nat) (r : InventoryRun) : LateMetadataStep → Prop
  | .event (.onPeerHasPiece _ _) => r.inventory.numPieces ≠ 0
  | .event (.onPeerBitfield k bitfield) =>
    bitfield.length = (n + 7) / 8 ∧ ∀ c ∈ r.conns[k]?, Silent n c.conn
  | .loadMetadata numPieces => numPieces = n
  | _ => True

instance InOrder.decidable (n : Nat) (r : InventoryRun) : ∀ st, Decidable (InOrder n r st) := by
  intro st
  unfold InOrder
  split <;> infer_instance

/-- The pieces that a connection knows of, counting the hint that has not been followed. -/
def Known (conn : PeerInventory) (i : Nat) : Prop :=
  conn.hasPiece i = true ∨ (conn.inventoryPendingMetadata = true ∧ conn.peerHasAllHint = true)

structure Told (n : Nat) (steps : List LateMetadataStep) (r : InventoryRun) : Prop where
  pieces : r.inventory.numPieces = 0 ∨ r.inventory.numPieces = n
  sized : ∀ c ∈ r.conns, c.conn.Sized ((n + 7) / 8)
  known : ∀ k c, r.conns[k]? = some c → ∀ i < n,
    (Known c.conn i ↔ ∃ st ∈ steps, st.Announces k i)
  made : ∀ k i, (∃ st ∈ steps, st.Announces k i) → k < r.conns.length

variable {n : Nat} {steps : List LateMetadataStep} {r r' : InventoryRun} {st : LateMetadataStep}

theorem told_start (n : Nat) : Told n [] start where
  pieces := .inl rfl
  sized := nofun
  known := nofun
  made _ _ h := by
    obtain ⟨st, hst, _⟩ := h
    cases hst

variable {k : Nat}

theorem exists_announces_append {i : Nat} :
    (∃ st' ∈ steps ++ [st], st'.Announces k i) ↔
      (∃ st' ∈ steps, st'.Announces k i) ∨ st.Announces k i := by
  constructor
  · rintro ⟨st', hmem, hst'⟩
    rcases mem_append.mp hmem with hold | hnew
    · exact .inl ⟨st', hold, hst'⟩
    · exact .inr (mem_singleton.mp hnew ▸ hst')
  · rintro (⟨st', hold, hst'⟩ | hst)
    · exact ⟨st', mem_append_left _ hold, hst'⟩
    · exact ⟨st, mem_append_right _ (mem_singleton.mpr rfl), hst⟩

theorem Told.frame (h : Told n steps r) (hnone : ∀ k i, ¬ st.Announces k i)
    (hconns : r'.conns = r.conns)
    (hpieces : r'.inventory.numPieces = 0 ∨ r'.inventory.numPieces = n) :
    Told n (steps ++ [st]) r' := by
  refine ⟨hpieces, hconns ▸ h.sized, fun k c hc i hi => ?_, fun k i hex => ?_⟩
  · rw [exists_announces_append, or_iff_left (hnone k i)]
    exact h.known k c (hconns ▸ hc) i hi
  · rw [exists_announces_append, or_iff_left (hnone k i)] at hex
    exact hconns ▸ h.made k i hex

variable {c : InventoryConn}

theorem Told.handle (h : Told n steps r) {c' : InventoryConn} (hc : r.conns[k]? = some c)
    (hconns : r'.conns = r.conns.set k c')
    (hpieces : r'.inventory.numPieces = r.inventory.numPieces)
    (hsized : c'.conn.Sized ((n + 7) / 8)) (hself : ∀ k' i, st.Announces k' i → k' = k)
    (hknown : ∀ i < n, (Known c'.conn i ↔ Known c.conn i ∨ st.Announces k i)) :
    Told n (steps ++ [st]) r' := by
  have hk := (List.getElem?_eq_some_iff.mp hc).1
  refine ⟨hpieces ▸ h.pieces, ?_, fun k' d hd i hi => ?_, fun k' i hex => ?_⟩
  · rw [hconns]
    exact List.forall_mem_set h.sized hsized
  · rw [exists_announces_append]
    rw [hconns] at hd
    by_cases hkk : k = k'
    · subst hkk
      rw [getElem?_set_self hk, some.injEq] at hd
      rw [← hd, ← h.known k c hc i hi]
      exact hknown i hi
    · rw [getElem?_set_ne hkk] at hd
      rw [or_iff_left fun hst => hkk (hself k' i hst).symm]
      exact h.known k' d hd i hi
  · rw [hconns, length_set]
    rcases exists_announces_append.mp hex with hold | hst
    · exact h.made k' i hold
    · exact hself k' i hst ▸ hk

section Handlers

variable {inv : Inventory} {conn : PeerInventory}

theorem known_onPeerHasPiece {j : Nat} (hj : j < inv.numPieces)
    (hsized : conn.Sized inv.expectedBitfieldSize) (i : Nat) :
    Known (inv.onPeerHasPiece conn j).1 i ↔ Known conn i ∨ j = i := by
  have hflags : ∀ size byte, (conn.allocated size byte).inventoryPendingMetadata =
      conn.inventoryPendingMetadata ∧
        (conn.allocated size byte).peerHasAllHint = conn.peerHasAllHint := by
    intro size byte
    unfold allocated
    split <;> exact ⟨rfl, rfl⟩
  unfold Known
  rw [(onPeerHasPiece_bits hj hsized).2 i, onPeerHasPiece_eq hj hsized]
  simp only [setHasPiece, (hflags _ _).1, (hflags _ _).2, Bool.or_eq_true, decide_eq_true_eq]
  exact or_right_comm

theorem known_onPeerHasAll (hsized : inv.numPieces ≠ 0 → conn.Sized inv.expectedBitfieldSize)
    {i : Nat} (hi : inv.numPieces ≠ 0 → i < inv.numPieces) : Known (inv.onPeerHasAll conn).1 i := by
  by_cases hn : inv.numPieces = 0
  · unfold Inventory.onPeerHasAll
    rw [if_pos hn]
    exact .inr ⟨rfl, rfl⟩
  · exact .inl ((Inventory.onPeerHasAll_bits hn (hsized hn)).2 i (hi hn))

theorem onPeerBitfield_fst (conn : PeerInventory) (bitfield : Bytes)
    (hlen : inv.numPieces ≠ 0 → inv.expectedBitfieldSize = bitfield.length) :
    (inv.onPeerBitfield conn bitfield).1 = {
      bitfield := bitfield
      peerHasAllHint := if inv.numPieces = 0 then false else conn.peerHasAllHint
      inventoryPendingMetadata := if inv.numPieces = 0 then true else false } := by
  unfold onPeerBitfield
  by_cases hn : inv.numPieces = 0
  · simp [hn]
  · simp [hn, hlen hn]

theorem known_onPeerBitfield {bitfield : Bytes}
    (hlen : inv.numPieces ≠ 0 → inv.expectedBitfieldSize = bitfield.length) (i : Nat) :
    Known (inv.onPeerBitfield conn bitfield).1 i ↔ Bitfield.get bitfield i = true := by
  rw [onPeerBitfield_fst conn bitfield hlen]
  unfold Known
  by_cases hn : inv.numPieces = 0
  · simp [hn, hasPiece]
  · simp [hn, hasPiece]

theorem reconcile_spec (hn : inv.numPieces ≠ 0) (hsized : conn.Sized inv.expectedBitfieldSize) :
    (inv.reconcile conn).1.Sized inv.expectedBitfieldSize ∧
      (inv.reconcile conn).1.inventoryPendingMetadata = false ∧
      ∀ i < inv.numPieces, (Known (inv.reconcile conn).1 i ↔ Known conn i) := by
  unfold Inventory.reconcile
  split
  · next hpending => exact ⟨hsized, by simpa using hpending, fun i _ => Iff.rfl⟩
  · next hpending =>
    have hpending : conn.inventoryPendingMetadata = true := by simpa using hpending
    split
    · next hhint =>
      -- the peer has said that it has all pieces
      refine ⟨.inr (Inventory.onPeerHasAll_bits hn hsized).1, ?_, fun i hi => ?_⟩
      · unfold Inventory.onPeerHasAll
        rw [if_neg hn]
      · exact iff_of_true (known_onPeerHasAll (fun _ => hsized) fun _ => hi)
          (.inr ⟨hpending, hhint⟩)
    · next hhint =>
      split
      · refine ⟨hsized, rfl, fun i _ => ?_⟩
        simp [Known, hasPiece, hhint]
      · next hempty =>
        have hlen : conn.bitfield.length = inv.expectedBitfieldSize :=
          hsized.resolve_left (by simpa using hempty)
        rw [if_neg (not_not.mpr hlen)]
        have hfst := onPeerBitfield_fst conn conn.bitfield fun _ => hlen.symm
        refine ⟨?_, ?_, fun i _ => ?_⟩
        · rw [hfst]
          exact .inr hlen
        · rw [hfst]
          exact if_neg hn
        · rw [known_onPeerBitfield fun _ => hlen.symm]
          simp [Known, hasPiece, hhint]

end Handlers

section

variable (h : Told n steps r)

include h

theorem Told.expectedBitfieldSize (hn : r.inventory.numPieces ≠ 0) :
    r.inventory.numPieces = n ∧ r.inventory.expectedBitfieldSize = (n + 7) / 8 := by
  have hpieces := h.pieces.resolve_left hn
  exact ⟨hpieces, by rw [Inventory.expectedBitfieldSize, hpieces]⟩

theorem Told.connect : Told n (steps ++ [.event .connect]) { r with conns := r.conns ++ [{}] } := by
  have hnone : ∀ k i, ¬ Announces k i (.event .connect) := fun _ _ => id
  refine ⟨h.pieces, fun c hc => ?_, fun k c hc i hi => ?_, fun k i hex => ?_⟩
  · rcases mem_append.mp hc with hold | hnew
    · exact h.sized c hold
    · rw [mem_singleton.mp hnew]
      exact .inl rfl
  · rw [exists_announces_append, or_iff_left (hnone k i)]
    by_cases hk : k < r.conns.length
    · rw [getElem?_append_left hk] at hc
      exact h.known k c hc i hi
    · -- the new connection knows nothing, and no message has come on it
      have hlen : k < (r.conns ++ [({} : InventoryConn)]).length :=
        (List.getElem?_eq_some_iff.mp hc).1
      rw [List.length_append, List.length_singleton] at hlen
      obtain rfl : k = r.conns.length := by omega
      rw [List.getElem?_concat_length, some.injEq] at hc
      refine iff_of_false ?_ fun hex => hk (h.made _ i hex)
      rw [← hc]
      simp [Known, hasPiece]
  · rw [exists_announces_append, or_iff_left (hnone k i)] at hex
    rw [List.length_append]
    exact Nat.lt_add_right _ (h.made k i hex)

section

variable (hc : r.conns[k]? = some c)

include hc

theorem Told.onPeerHasPiece {j : Nat} (hn : r.inventory.numPieces ≠ 0) :
    Told n (steps ++ [.event (.onPeerHasPiece k j)]) {
      inventory := (r.inventory.onPeerHasPiece c.conn j).2
      conns := r.conns.set k { c with conn := (r.inventory.onPeerHasPiece c.conn j).1 } } := by
  obtain ⟨hpieces, hsize⟩ := h.expectedBitfieldSize hn
  have hsized := h.sized c (mem_of_getElem? hc)
  by_cases hj : j < r.inventory.numPieces
  · have hsized' := hsize ▸ hsized
    refine h.handle hc rfl (r.inventory.numPieces_onPeerHasPiece c.conn j) ?_
      (fun k' i hst => hst.1.symm) fun i _ => ?_
    · exact .inr ((onPeerHasPiece_bits hj hsized').1.trans hsize)
    · rw [known_onPeerHasPiece hj hsized']
      simp [Announces]
  · -- a piece that the torrent does not have
    have hsame : r.inventory.onPeerHasPiece c.conn j = (c.conn, r.inventory) := by
      unfold Inventory.onPeerHasPiece
      exact if_pos (not_lt.mp hj)
    rw [hsame]
    refine h.handle hc rfl rfl hsized (fun k' i hst => hst.1.symm) fun i hi => ?_
    have hne : j ≠ i := by omega
    simp [Announces, hne]

theorem Told.onPeerHasAll :
    Told n (steps ++ [.event (.onPeerHasAll k)]) {
      inventory := (r.inventory.onPeerHasAll c.conn).2
      conns := r.conns.set k { c with conn := (r.inventory.onPeerHasAll c.conn).1 } } := by
  have hsized := h.sized c (mem_of_getElem? hc)
  have hsized' : r.inventory.numPieces ≠ 0 → c.conn.Sized r.inventory.expectedBitfieldSize :=
    fun hn => (h.expectedBitfieldSize hn).2 ▸ hsized
  refine h.handle hc rfl (r.inventory.numPieces_onPeerHasAll c.conn) ?_
    (fun k' i hst => Eq.symm hst) fun i hi => ?_
  · by_cases hn : r.inventory.numPieces = 0
    · simp only [Inventory.onPeerHasAll, if_pos hn]
      exact hsized
    · exact .inr ((Inventory.onPeerHasAll_bits hn (hsized' hn)).1.trans
        (h.expectedBitfieldSize hn).2)
  · exact iff_of_true (known_onPeerHasAll hsized' fun hn => (h.expectedBitfieldSize hn).1 ▸ hi)
      (.inr rfl)

theorem Told.onPeerBitfield {bitfield : Bytes} (hlen : bitfield.length = (n + 7) / 8)
    (hsilent : Silent n c.conn) :
    Told n (steps ++ [.event (.onPeerBitfield k bitfield)]) {
      inventory := (r.inventory.onPeerBitfield c.conn bitfield).2
      conns := r.conns.set k
        { c with conn := (r.inventory.onPeerBitfield c.conn bitfield).1 } } := by
  obtain ⟨hhint, hnone⟩ := hsilent
  have hsize : r.inventory.numPieces ≠ 0 → r.inventory.expectedBitfieldSize = bitfield.length :=
    fun hn => (h.expectedBitfieldSize hn).2.trans hlen.symm
  refine h.handle hc rfl (r.inventory.numPieces_onPeerBitfield c.conn bitfield) ?_
    (fun k' i hst => hst.1.symm) fun i hi => ?_
  · rw [onPeerBitfield_fst c.conn bitfield hsize]
    exact .inr hlen
  · rw [known_onPeerBitfield hsize]
    simp [Known, Announces, hnone i hi, hhint]

theorem Told.reconcile (hn : r.inventory.numPieces ≠ 0) :
    Told n (steps ++ [.reconcile k]) {
      inventory := (r.inventory.reconcile c.conn).2
      conns := r.conns.set k { c with conn := (r.inventory.reconcile c.conn).1 } } := by
  obtain ⟨hpieces, hsize⟩ := h.expectedBitfieldSize hn
  obtain ⟨hsized, _, hknown⟩ := reconcile_spec hn (hsize ▸ h.sized c (mem_of_getElem? hc))
  refine h.handle hc rfl (r.inventory.numPieces_reconcile c.conn) (hsize ▸ hsized)
    (fun _ _ hst => hst.elim) fun i hi => ?_
  rw [hknown i (hpieces ▸ hi)]
  exact (or_iff_left id).symm

end

end

theorem step_told (steps : List LateMetadataStep) (r : InventoryRun) (st : LateMetadataStep)
    (r' : InventoryRun) (hok : InOrder n r st) (hstep : step r st = some r')
    (h : Told n steps r) : Told n (steps ++ [st]) r' := by
  cases st with simp only [step] at hstep
  | event st =>
    cases st with
    | connect =>
      cases hstep
      exact h.connect
    | onPeerHasPiece k j =>
      obtain ⟨c, hc, rfl⟩ := map_eq_some_iff.mp hstep
      exact h.onPeerHasPiece hc hok
    | onPeerHasAll k =>
      obtain ⟨c, hc, rfl⟩ := map_eq_some_iff.mp hstep
      exact h.onPeerHasAll hc
    | onPeerHasNone k =>
      obtain ⟨c, hc, rfl⟩ := map_eq_some_iff.mp hstep
      exact h.handle hc rfl rfl (h.sized c (mem_of_getElem? hc)) (fun _ _ hst => hst.elim)
        fun i _ => (or_iff_left id).symm
    | onPeerBitfield k bitfield =>
      obtain ⟨c, hc, rfl⟩ := map_eq_some_iff.mp hstep
      exact h.onPeerBitfield hc hok.1 (hok.2 c hc)
    | onDisconnect k =>
      obtain ⟨c, hc, rfl⟩ := map_eq_some_iff.mp hstep
      refine h.handle hc rfl ?_ (h.sized c (mem_of_getElem? hc)) (fun _ _ hst => hst.elim)
        fun i _ => (or_iff_left id).symm
      exact numPieces_foldl uncountPiece_eq _ r.inventory
    | startPiece i =>
      cases hstep
      refine h.frame (fun _ _ => id) rfl ?_
      rw [show (r.inventory.startPiece i).numPieces = _ from length_set]
      exact h.pieces
    | completePiece i =>
      cases hstep
      refine h.frame (fun _ _ => id) rfl ?_
      rw [show (r.inventory.completePiece i).numPieces = _ from length_set]
      exact h.pieces
    | returnPieceToQueue i =>
      cases hstep
      refine h.frame (fun _ _ => id) rfl ?_
      rw [show (r.inventory.returnPieceToQueue i).numPieces = _ from length_set]
      exact h.pieces
  | loadMetadata numPieces =>
    split at hstep
    · cases hstep
      refine h.frame (fun _ _ => id) rfl (.inr ?_)
      exact length_replicate.trans hok
    · cases hstep
  | buildPieceRarity =>
    cases hstep
    exact h.frame (fun _ _ => id) rfl h.pieces
  | reconcile k =>
    split at hstep
    · cases hstep
    · next hn =>
      obtain ⟨c, hc, rfl⟩ := map_eq_some_iff.mp hstep
      exact h.reconcile hc hn

end LateMetadataStep

/-- In a run whose steps meet the condition a connection with no inventory pending has, once the
    metadata has been loaded, exactly the pieces that the messages on it have announced. -/
theorem late_inventory_kept (n : Nat) (steps : List LateMetadataStep) (r : InventoryRun)
    (horder : StepsMeet step (LateMetadataStep.InOrder n) steps
      start)
    (hrun : run steps start = some r)
    (hloaded : r.inventory.numPieces ≠ 0) (k : Nat) (c : InventoryConn)
    (hc : r.conns[k]? = some c) :
    (r.inventory.reconcile c.conn).1.inventoryPendingMetadata = false ∧
    (c.conn.inventoryPendingMetadata = false → ∀ i < n,
      (c.conn.hasPiece i = true ↔ ∃ st ∈ steps, st.Announces k i)) := by
  have h := runSteps_history step_told horder hrun (told_start n)
  have hsize := (h.expectedBitfieldSize hloaded).2
  refine ⟨?_, fun hsettled i hi => ?_⟩
  · exact (reconcile_spec hloaded
      (hsize ▸ h.sized c (mem_of_getElem? hc))).2.1
  · rw [← h.known k c hc i hi]
    simp [LateMetadataStep.Known, hsettled]

/-- Before the metadata arrives one peer sends a bitfield and another says that it has all pieces;
    the first gets another piece before its connection is gone through. -/
def twoEarlyPeers : List LateMetadataStep :=
  [.event .connect, .event .connect, .event (.onPeerBitfield 0 [0x80]),
    .event (.onPeerHasAll 1), .loadMetadata 3, .event (.onPeerHasPiece 0 1), .buildPieceRarity,
    .reconcile 0, .reconcile 1]

theorem late_inventory_kept_early :
    ∃ r c, run twoEarlyPeers start = some r ∧
      r.conns[0]? = some c ∧ c.conn.bitfield = [0xC0] ∧
      ∀ i < 3, (c.conn.hasPiece i = true ↔ ∃ st ∈ twoEarlyPeers, st.Announces 0 i) := by
  obtain ⟨r, c, hr, hloaded, hc, hbits, hsettled⟩ : ∃ r c,
      run twoEarlyPeers start = some r ∧
      r.inventory.numPieces ≠ 0 ∧ r.conns[0]? = some c ∧ c.conn.bitfield = [0xC0] ∧
      c.conn.inventoryPendingMetadata = false :=
    ⟨(run twoEarlyPeers start).get (by decide +kernel),
      { conn := { bitfield := [0xC0] } }, (some_get _).symm, by decide +kernel,
      by decide +kernel, rfl, rfl⟩
  have hkept := late_inventory_kept 3 twoEarlyPeers r (by decide +kernel) hr hloaded 0 c hc
  exact ⟨r, c, hr, hc, hbits, hkept.2 hsettled⟩

/-- A `Have` message before the metadata is dropped: later the connection lacks the piece. -/
theorem late_inventory_lost :
    (run [.event .connect, .event (.onPeerHasPiece 0 0), .loadMetadata 1,
        .buildPieceRarity, .reconcile 0] start).map
          (fun r => r.conns.map fun c =>
            (c.conn.inventoryPendingMetadata, c.conn.hasPiece 0)) = some [(false, false)] ∧
    (run [.event .connect, .event (.onPeerHasAll 0),
        .event (.onPeerBitfield 0 [0x00]), .loadMetadata 1, .buildPieceRarity, .reconcile 0]
          start).map
            (fun r => r.conns.map fun c =>
              (c.conn.inventoryPendingMetadata, c.conn.hasPiece 0)) = some [(false, false)] := by
  decide +kernel

end P2P
