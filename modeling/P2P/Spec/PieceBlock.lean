import P2P.Native.TorrentSession
import P2P.Spec.PieceMap

/-!
# Blocks and their slots

A piece in progress is a buffer that is cut into slots of `BLOCK_SIZE` bytes, with a flag for each
slot.
-/

namespace P2P

open TorrentSession Option

namespace InProgressPiece

def blockLength (p : InProgressPiece) (b : Nat) : Nat :=
  min blockSize (p.data.length - b * blockSize)

def IsSlot (p : InProgressPiece) (begin : Nat) (block : Bytes) : Prop :=
  begin = begin / blockSize * blockSize ∧ block.length = p.blockLength (begin / blockSize)

def Open (p : InProgressPiece) (b : Nat) : Prop :=
  b < p.blocksReceived.length ∧ p.blocksReceived[b]? ≠ some true

variable {p p' : InProgressPiece} {b begin : Nat} {block : Bytes}

theorem open_iff : p.Open b ↔
    ¬ (b ≥ p.blocksReceived.length ∨ p.blocksReceived[b]? = some true) := by
  rw [not_or, Open, Nat.not_le]

theorem slot_lt (hb : b < p.blocksReceived.length) : b * blockSize < p.data.length := by
  have hle := p.blocks_le
  have hdiv : b < (p.data.length + blockSize - 1) / blockSize := by omega
  have hmul := (Nat.lt_div_iff_mul_lt (by decide)).mp hdiv
  unfold blockSize at hmul ⊢
  omega

theorem store_some (h : p.store b begin block = some p') :
    begin + block.length ≤ p.data.length ∧ p'.data = p.data.overwrite 0 begin block ∧
      p'.blocksReceived = p.blocksReceived.set b true ∧
      p'.receivedCount = u32 (p.receivedCount + 1) ∧ p'.totalBlocks = p.totalBlocks := by
  unfold store at h
  split at h
  · next hfit =>
    rw [← some.inj h]
    exact ⟨hfit, rfl, rfl, rfl, rfl⟩
  · exact nomatch h

theorem IsSlot.store (hs : p.IsSlot begin block)
    (hb : begin / blockSize < p.blocksReceived.length) :
    ∃ p', p.store (begin / blockSize) begin block = some p' ∧
      ∀ i, ¬ (begin ≤ i ∧ i < begin + block.length) → p'.data[i]? = p.data[i]? := by
  have hlt := slot_lt hb
  -- the slot ends with the piece at the latest
  have hfit : begin + block.length ≤ p.data.length := by
    rw [hs.2, blockLength, hs.1, Nat.mul_div_cancel _ (by decide)]
    omega
  unfold InProgressPiece.store
  rw [dif_pos hfit]
  refine ⟨_, rfl, fun i hi => ?_⟩
  show (p.data.overwrite 0 begin block)[i]? = p.data[i]?
  rw [List.getElem?_overwrite 0 block (by omega) i, if_neg hi]

theorem Open.flags_ne (ho : p.Open b) : p.blocksReceived.set b true ≠ p.blocksReceived := by
  intro heq
  apply ho.2
  rw [← heq, List.getElem?_set_self ho.1]

end InProgressPiece

namespace TorrentSession

open InProgressPiece

variable (E : Env) {s : TorrentSession} (peer : Peer) {index begin : UInt32} {block : Bytes}

def buffers (s : TorrentSession) (piece : Nat) : Option (Bytes × List Bool × Nat) :=
  (s.inProgressPieces.get? piece).map fun p => (p.data, p.blocksReceived, p.receivedCount)

/-- A message changes no buffer, or fills a slot of its piece and no byte outside it. -/
def KeepsSlots (s s' : TorrentSession) (index begin : UInt32) (block : Bytes) : Prop :=
  (∀ j, j ≠ index.toNat → s'.buffers j = s.buffers j) ∧
    (s'.buffers index.toNat = s.buffers index.toNat ∨
      ∃ p p', s.inProgressPieces.get? index.toNat = some p ∧
        s'.inProgressPieces.get? index.toNat = some p' ∧ p.IsSlot begin.toNat block ∧
        ∀ i, ¬ (begin.toNat ≤ i ∧ i < begin.toNat + block.length) → p'.data[i]? = p.data[i]?)

theorem keepsSlots_refl (s : TorrentSession) (index begin : UInt32) (block : Bytes) :
    s.KeepsSlots s index begin block :=
  ⟨fun _ _ => rfl, .inl rfl⟩

/-- A message has no undefined behaviour and keeps the slots. -/
def BlockSafe (s : TorrentSession) (index begin : UInt32) (block : Bytes) : Prop :=
  ∃ s' outcome, s.onPieceBlock E peer index begin block = some (s', outcome) ∧
    s.KeepsSlots s' index begin block

theorem onPieceBlock_none (h : ¬ index.toNat < s.numPieces) :
    s.onPieceBlock E peer index begin block = none := by
  unfold onPieceBlock
  rw [List.getElem?_eq_none (Nat.le_of_not_lt h)]

theorem onPieceBlock_have (h : s.pieceStatus[index.toNat]? = some .have_) :
    s.onPieceBlock E peer index begin block = some (s, .cancelled) := by
  unfold onPieceBlock
  rw [h]
  exact if_pos rfl

theorem onPieceBlock_wanted (hindex : index.toNat < s.numPieces)
    (hwanted : s.pieceStatus[index.toNat]? ≠ some .have_) :
    s.onPieceBlock E peer index begin block = match s.inProgressPieces.get? index.toNat with
      | none => some (s, .cancelled)
      | some p => s.receiveBlock E peer index begin block p := by
  unfold onPieceBlock
  rw [List.getElem?_eq_getElem hindex] at hwanted ⊢
  exact if_neg fun hhave => hwanted (congrArg some hhave)

variable {p : InProgressPiece}

theorem receiveBlock_closed (h : ¬ p.Open (begin.toNat / blockSize)) :
    s.receiveBlock E peer index begin block p = some (s, .ignored) := by
  rw [open_iff, Decidable.not_not] at h
  unfold receiveBlock
  exact if_pos h

variable (s index) in
theorem receiveBlock_open (h : p.Open (begin.toNat / blockSize)) {p₁ : InProgressPiece}
    (hstore : p.store (begin.toNat / blockSize) begin.toNat block = some p₁) :
    ∃ s' requests cancels, s.receiveBlock E peer index begin block p =
        some (s', .stored (p₁.receivedCount = p₁.totalBlocks) cancels) ∧
      s'.corruptReports = s.corruptReports ∧
      s'.inProgressPieces = s.inProgressPieces.insert index.toNat
        { p₁ with outstandingRequests := requests } := by
  unfold receiveBlock
  dsimp only
  rw [if_neg (open_iff.mp h), hstore]
  exact ⟨_, _, _, rfl, rfl, rfl⟩

theorem receiveBlock_outside (h : p.Open (begin.toNat / blockSize))
    (hstore : p.store (begin.toNat / blockSize) begin.toNat block = none) :
    s.receiveBlock E peer index begin block p = none := by
  unfold receiveBlock
  dsimp only
  rw [if_neg (open_iff.mp h), hstore]

variable {s' : TorrentSession} {outcome : BlockOutcome}

theorem onPieceBlock_status (h : s.onPieceBlock E peer index begin block = some (s', outcome)) :
    (s'.pieceStatus = s.pieceStatus ∧ s'.completedPieces = s.completedPieces ∧
      s'.isDownloadComplete = s.isDownloadComplete) ∧
    ∀ complete cancels, outcome = .stored complete cancels →
      index.toNat < s.numPieces ∧ s.pieceStatus[index.toNat]? ≠ some .have_ := by
  unfold onPieceBlock at h
  split at h
  · cases h
  · next status hstatus =>
    have hindex := (List.getElem?_eq_some_iff.mp hstatus).1
    split at h
    · obtain ⟨rfl, rfl⟩ := Prod.mk.inj (some.inj h)
      exact ⟨⟨rfl, rfl, rfl⟩, nofun⟩
    · next hne =>
      split at h
      · obtain ⟨rfl, rfl⟩ := Prod.mk.inj (some.inj h)
        exact ⟨⟨rfl, rfl, rfl⟩, nofun⟩
      · refine ⟨?_, fun _ _ _ => ⟨hindex, ?_⟩⟩
        · unfold receiveBlock at h
          dsimp only at h
          split at h
          · obtain ⟨rfl, -⟩ := Prod.mk.inj (some.inj h)
            exact ⟨rfl, rfl, rfl⟩
          · split at h
            · exact nomatch h
            · obtain ⟨rfl, -⟩ := Prod.mk.inj (some.inj h)
              exact ⟨rfl, rfl, rfl⟩
        · rw [hstatus]
          exact fun hhave => hne (some.inj hhave)

theorem onPieceBlock_cases (h : s.onPieceBlock E peer index begin block = some (s', outcome)) :
    (s' = s ∧ (outcome = .cancelled ∨ outcome = .ignored)) ∨
      ∃ p p₁ requests cancels, s.inProgressPieces.get? index.toNat = some p ∧
        p.Open (begin.toNat / blockSize) ∧
        p.store (begin.toNat / blockSize) begin.toNat block = some p₁ ∧
        outcome = .stored (p₁.receivedCount = p₁.totalBlocks) cancels ∧
        s'.corruptReports = s.corruptReports ∧
        s'.inProgressPieces = s.inProgressPieces.insert index.toNat
          { p₁ with outstandingRequests := requests } := by
  by_cases hindex : index.toNat < s.numPieces
  · by_cases hhave : s.pieceStatus[index.toNat]? = some .have_
    · rw [onPieceBlock_have E peer hhave] at h
      obtain ⟨rfl, rfl⟩ := Prod.mk.inj (some.inj h)
      exact .inl ⟨rfl, .inl rfl⟩
    · rw [onPieceBlock_wanted E peer hindex hhave] at h
      cases hp : s.inProgressPieces.get? index.toNat with
      | none =>
        rw [hp] at h
        obtain ⟨rfl, rfl⟩ := Prod.mk.inj (some.inj h)
        exact .inl ⟨rfl, .inl rfl⟩
      | some p =>
        rw [hp] at h
        dsimp only at h
        -- the check of the block, and then whether it fits into the buffer
        by_cases hopen : p.Open (begin.toNat / blockSize)
        · cases hstore : p.store (begin.toNat / blockSize) begin.toNat block with
          | none =>
            rw [receiveBlock_outside E peer hopen hstore] at h
            cases h
          | some p₁ =>
            obtain ⟨s₁, requests, cancels, hrun, hreports, hpieces⟩ :=
              receiveBlock_open E s peer index hopen hstore
            rw [hrun] at h
            obtain ⟨rfl, rfl⟩ := Prod.mk.inj (some.inj h)
            exact .inr ⟨p, p₁, requests, cancels, rfl, hopen, hstore, rfl, hreports, hpieces⟩
        · rw [receiveBlock_closed E peer hopen] at h
          obtain ⟨rfl, rfl⟩ := Prod.mk.inj (some.inj h)
          exact .inl ⟨rfl, .inr rfl⟩
  · rw [onPieceBlock_none E peer hindex] at h
    cases h

theorem receiveBlock_safe_iff (hp : s.inProgressPieces.get? index.toNat = some p)
    (h : p.Open (begin.toNat / blockSize)) :
    (∃ s' outcome, s.receiveBlock E peer index begin block p = some (s', outcome) ∧
      s.KeepsSlots s' index begin block) ↔ p.IsSlot begin.toNat block := by
  constructor
  · intro hsafe
    obtain ⟨s', outcome, hrun, hkeep⟩ := hsafe
    cases hstore : p.store (begin.toNat / blockSize) begin.toNat block with
    | none =>
      rw [receiveBlock_outside E peer h hstore] at hrun
      cases hrun
    | some p₁ =>
      obtain ⟨s₁, requests, cancels, hrun₁, -, hpieces⟩ :=
        receiveBlock_open E s peer index h hstore
      rw [hrun] at hrun₁
      cases hrun₁
      cases hkeep.2 with
      | inl hsame =>
        -- the flag of the block has been set, so the buffers differ
        have hflags := (store_some hstore).2.2.1
        unfold buffers at hsame
        rw [hpieces, OrdMap.get?_insert, if_pos rfl, hp] at hsame
        have hset := (Prod.mk.inj (Prod.mk.inj (some.inj hsame)).2).1
        exact absurd (hflags.symm.trans hset) h.flags_ne
      | inr hslot =>
        obtain ⟨q, q', hq, -, hslot, -⟩ := hslot
        rw [hp] at hq
        rw [some.inj hq]
        exact hslot
  · intro hslot
    obtain ⟨p₁, hstore, hbytes⟩ := hslot.store h.1
    obtain ⟨s', requests, cancels, hrun, -, hpieces⟩ :=
      receiveBlock_open E s peer index h hstore
    refine ⟨s', _, hrun, ?_,
      .inr ⟨p, { p₁ with outstandingRequests := requests }, hp, ?_, hslot, hbytes⟩⟩
    · -- the other pieces stay as they are
      intro j hj
      unfold buffers
      rw [hpieces, OrdMap.get?_insert, if_neg hj]
    · rw [hpieces, OrdMap.get?_insert, if_pos rfl]

end TorrentSession

/-- A message touches nothing but its slot exactly when its piece exists, and is there already, or
    the block does not pass the check or fills its slot. -/
theorem pieceBlock_safe_iff (E : Env) (s : TorrentSession) (peer : Peer) (index begin : UInt32)
    (block : Bytes) :
    s.BlockSafe E peer index begin block ↔
      index.toNat < s.numPieces ∧ (s.pieceStatus[index.toNat]? = some .have_ ∨
        ∀ p, s.inProgressPieces.get? index.toNat = some p →
          p.Open (begin.toNat / blockSize) → p.IsSlot begin.toNat block) := by
  constructor
  · intro hsafe
    obtain ⟨s', outcome, hrun, hkeep⟩ := hsafe
    -- a message for a piece that there is not has no result
    have hindex : index.toNat < s.numPieces := by
      by_contra hnot
      rw [onPieceBlock_none E peer hnot] at hrun
      cases hrun
    refine ⟨hindex, ?_⟩
    by_cases hhave : s.pieceStatus[index.toNat]? = some .have_
    · exact .inl hhave
    · right
      intro p hp hopen
      rw [onPieceBlock_wanted E peer hindex hhave, hp] at hrun
      exact (receiveBlock_safe_iff E peer hp hopen).mp ⟨s', outcome, hrun, hkeep⟩
  · intro hcond
    obtain ⟨hindex, hcond⟩ := hcond
    by_cases hhave : s.pieceStatus[index.toNat]? = some .have_
    · exact ⟨s, _, onPieceBlock_have E peer hhave, s.keepsSlots_refl _ _ _⟩
    · have hslot := hcond.resolve_left hhave
      unfold TorrentSession.BlockSafe
      rw [onPieceBlock_wanted E peer hindex hhave]
      cases hp : s.inProgressPieces.get? index.toNat with
      | none => exact ⟨s, _, rfl, s.keepsSlots_refl _ _ _⟩
      | some p =>
        by_cases hopen : p.Open (begin.toNat / blockSize)
        · exact (receiveBlock_safe_iff E peer hp hopen).mpr (hslot p hp hopen)
        · -- the check stops the message
          exact ⟨s, _, receiveBlock_closed E peer hopen, s.keepsSlots_refl _ _ _⟩

def twoBytesWanted : TorrentSession where
  pieceStatus := [.inProgress]
  inProgressPieces := OrdMap.empty.insert 0 (.new 2)
  manager := .start fun _ => none

/-- A block that starts inside a slot sets the flag of the slot; one that is too long leaves the
    buffer; an index that is too large reads behind the statuses. -/
theorem onPieceBlock_outside :
    ((twoBytesWanted.onPieceBlock twoByteEnv ⟨[], []⟩ 0 1 [7]).bind
      fun r => r.1.buffers 0) = some ([0, 7], [true], 1) ∧
    twoBytesWanted.onPieceBlock twoByteEnv ⟨[], []⟩ 0 1 [7, 7] =
      none ∧
    twoBytesWanted.onPieceBlock twoByteEnv ⟨[], []⟩ 1 0 [7, 7] =
      none := by
  exact ⟨rfl, rfl, rfl⟩

end P2P
