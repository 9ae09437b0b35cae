import P2P.Native.Inventory

/-!
# What the handlers do to bitfields and counts

The handlers set bits in the bitfield of a connection and add to the counts of the pieces.
-/

namespace P2P

open PeerInventory Bitfield List

namespace PeerInventory

/-- The bitfield has not been set, or it has the right length. -/
def Sized (conn : PeerInventory) (size : Nat) : Prop :=
  conn.bitfield = [] ∨ conn.bitfield.length = size

theorem setAll_eq (l : List Nat) (conn : PeerInventory) :
    l.foldl setHasPiece conn = { conn with bitfield := l.foldl set conn.bitfield } := by
  induction l generalizing conn with
  | nil => rfl
  | cons i l ih => rw [foldl_cons, ih]; rfl

def allocated (conn : PeerInventory) (size : Nat) (byte : UInt8) : PeerInventory :=
  if conn.bitfield.length = 0 then { conn with bitfield := List.replicate size byte } else conn

theorem length_allocated {conn : PeerInventory} {size : Nat} (h : conn.Sized size) (byte : UInt8) :
    (conn.allocated size byte).bitfield.length = size := by
  unfold allocated
  split
  · exact length_replicate
  · next hne =>
    rcases h with hnil | hlen
    · rw [hnil] at hne
      exact absurd rfl hne
    · exact hlen

theorem hasPiece_allocated_zero (conn : PeerInventory) (size j : Nat) :
    (conn.allocated size 0).hasPiece j = conn.hasPiece j := by
  unfold allocated
  split
  · next hzero =>
    rw [hasPiece, hasPiece, length_eq_zero_iff.mp hzero, get_replicate_zero, get_nil]
  · rfl

end PeerInventory

namespace Inventory

variable {inv : Inventory}

theorem availability_addPieceAvailability (inv : Inventory) (i j : Nat) (val : Int) :
    (inv.addPieceAvailability i val).availability j =
      if j = i ∧ i < inv.pieceAvailability.length then
        (((inv.availability i : Int) + val) % 2 ^ 64).toNat
      else inv.availability j := by
  unfold addPieceAvailability availability
  rw [getElem?_set]
  by_cases hij : i = j
  · subst hij
    by_cases hi : i < inv.pieceAvailability.length
    · simp [hi]
    · simp [hi]
  · simp [hij, Ne.symm hij]

theorem length_addPieceAvailability (inv : Inventory) (i : Nat) (val : Int) :
    (inv.addPieceAvailability i val).pieceAvailability.length = inv.pieceAvailability.length :=
  length_set

theorem countPiece_eq (inv : Inventory) (i : Nat) :
    ∃ rarity, inv.countPiece i =
      { inv.addPieceAvailability i 1 with piecesByRarity := rarity } := by
  unfold countPiece
  split
  · exact ⟨_, rfl⟩
  · exact ⟨_, rfl⟩

theorem uncountPiece_eq (inv : Inventory) (i : Nat) :
    ∃ rarity, inv.uncountPiece i =
      { inv.addPieceAvailability i (-1) with piecesByRarity := rarity } :=
  ⟨_, rfl⟩

variable {f : Inventory → Nat → Inventory} {val : Int}

section

variable
  (hf : ∀ inv i, ∃ rarity, f inv i =
    { inv.addPieceAvailability i val with piecesByRarity := rarity })

include hf

theorem availability_foldl {l : List Nat} (hnodup : l.Nodup) (inv : Inventory)
    (hl : ∀ i ∈ l, i < inv.pieceAvailability.length) :
    (l.foldl f inv).pieceStatus = inv.pieceStatus ∧
      (l.foldl f inv).pieceAvailability.length = inv.pieceAvailability.length ∧
      ∀ j, (l.foldl f inv).availability j =
        if j ∈ l then (((inv.availability j : Int) + val) % 2 ^ 64).toNat
        else inv.availability j := by
  induction l generalizing inv with
  | nil => exact ⟨rfl, rfl, fun j => rfl⟩
  | cons i l ih =>
    obtain ⟨hi, hnodup⟩ := nodup_cons.mp hnodup
    obtain ⟨rarity, heq⟩ := hf inv i
    have hlen : (f inv i).pieceAvailability.length = inv.pieceAvailability.length := by
      rw [heq]
      exact length_addPieceAvailability inv i val
    have havail : ∀ j, (f inv i).availability j =
        if j = i ∧ i < inv.pieceAvailability.length then
          (((inv.availability i : Int) + val) % 2 ^ 64).toNat
        else inv.availability j := by
      intro j
      rw [heq]
      exact availability_addPieceAvailability inv i j val
    obtain ⟨hstatus, hlength, hrest⟩ := ih hnodup (f inv i) fun k hk => by
      rw [hlen]
      exact hl k (mem_cons_of_mem _ hk)
    refine ⟨hstatus.trans (by rw [heq]; rfl), hlength.trans hlen, fun j => ?_⟩
    rw [foldl_cons, hrest, havail]
    by_cases hj : j = i
    · -- the rest of the list does not count this piece again
      subst hj
      simp [hi, hl j (mem_cons_self ..)]
    · simp [hj]

theorem numPieces_foldl (l : List Nat) (inv : Inventory) :
    (l.foldl f inv).numPieces = inv.numPieces := by
  induction l generalizing inv with
  | nil => rfl
  | cons i l ih =>
    obtain ⟨rarity, heq⟩ := hf inv i
    rw [foldl_cons, ih, heq]
    rfl

end

variable {conn : PeerInventory} {i : Nat}

theorem onPeerHasPiece_eq (hi : i < inv.numPieces) (hsized : conn.Sized inv.expectedBitfieldSize) :
    inv.onPeerHasPiece conn i =
      ((conn.allocated inv.expectedBitfieldSize 0).setHasPiece i, inv.countPiece i) := by
  have hlt : i / 8 < (conn.allocated inv.expectedBitfieldSize 0).bitfield.length := by
    rw [length_allocated hsized 0]
    unfold expectedBitfieldSize
    omega
  unfold onPeerHasPiece
  rw [if_neg (not_le.mpr hi)]
  exact if_pos hlt

theorem onPeerHasPiece_snd (inv : Inventory) (conn : PeerInventory) (i : Nat) :
    (inv.onPeerHasPiece conn i).2 = inv ∨
      (i < inv.numPieces ∧ (inv.onPeerHasPiece conn i).2 = inv.countPiece i) := by
  have hcases : ∀ conn' : PeerInventory,
      (if i / 8 < conn'.bitfield.length then (conn'.setHasPiece i, inv.countPiece i)
        else (conn', inv)).2 = inv ∨
      (if i / 8 < conn'.bitfield.length then (conn'.setHasPiece i, inv.countPiece i)
        else (conn', inv)).2 = inv.countPiece i := by
    intro conn'
    split
    · exact .inr rfl
    · exact .inl rfl
  unfold onPeerHasPiece
  split
  · exact .inl rfl
  · next hi => exact (hcases _).imp_right fun heq => ⟨not_le.mp hi, heq⟩

theorem onPeerHasPiece_bits (hi : i < inv.numPieces)
    (hsized : conn.Sized inv.expectedBitfieldSize) :
    (inv.onPeerHasPiece conn i).1.bitfield.length = inv.expectedBitfieldSize ∧
      ∀ j, (inv.onPeerHasPiece conn i).1.hasPiece j = (conn.hasPiece j || decide (i = j)) := by
  have hlen := length_allocated hsized 0
  rw [onPeerHasPiece_eq hi hsized]
  refine ⟨(length_set _ i).trans hlen, fun j => ?_⟩
  rw [← hasPiece_allocated_zero conn inv.expectedBitfieldSize j]
  refine get_set ?_ j
  rw [hlen]
  unfold expectedBitfieldSize
  omega

theorem onPeerHasAll_bits (hn : inv.numPieces ≠ 0) (hsized : conn.Sized inv.expectedBitfieldSize) :
    (inv.onPeerHasAll conn).1.bitfield.length = inv.expectedBitfieldSize ∧
      ∀ j < inv.numPieces, (inv.onPeerHasAll conn).1.hasPiece j = true := by
  have hlen := length_allocated hsized 0xFF
  have heq : (inv.onPeerHasAll conn).1.bitfield =
      (range inv.numPieces).foldl set
        (conn.allocated inv.expectedBitfieldSize 0xFF).bitfield := by
    unfold onPeerHasAll
    rw [if_neg hn]
    simp only [setAll_eq]
    rfl
  refine ⟨?_, fun j hj => ?_⟩
  · rw [heq, length_foldl_set, hlen]
  · rw [hasPiece, heq, get_foldl_set]
    · simp [hj]
    · intro k hk
      rw [hlen]
      have := mem_range.mp hk
      unfold expectedBitfieldSize
      omega

section

variable (inv : Inventory) (conn : PeerInventory)

theorem numPieces_onPeerHasPiece (i : Nat) :
    (inv.onPeerHasPiece conn i).2.numPieces = inv.numPieces := by
  rcases inv.onPeerHasPiece_snd conn i with heq | ⟨_, heq⟩
  · rw [heq]
  · rw [heq]
    exact numPieces_foldl countPiece_eq [i] inv

theorem numPieces_onPeerHasAll : (inv.onPeerHasAll conn).2.numPieces = inv.numPieces := by
  unfold onPeerHasAll
  split
  · rfl
  · exact numPieces_foldl countPiece_eq _ inv

theorem numPieces_onPeerBitfield (bitfield : Bytes) :
    (inv.onPeerBitfield conn bitfield).2.numPieces = inv.numPieces := by
  unfold onPeerBitfield
  split
  · rfl
  · split
    · rfl
    · exact numPieces_foldl countPiece_eq _ inv

theorem numPieces_reconcile : (inv.reconcile conn).2.numPieces = inv.numPieces := by
  unfold reconcile
  split
  · rfl
  · split
    · exact inv.numPieces_onPeerHasAll conn
    · split
      · rfl
      · split
        · rfl
        · exact inv.numPieces_onPeerBitfield conn conn.bitfield

end

end Inventory

end P2P
