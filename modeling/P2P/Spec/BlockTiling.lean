import P2P.Native.BlockRequests
import P2P.Spec.PieceTiling
import P2P.Spec.DiskBytes

/-!
# The blocks of a piece

The length of the last block is taken from the buffer of the piece, or from the size of the torrent.
-/

namespace P2P

open InProgressPiece Tiling List TorrentInfo

variable {info : TorrentInfo} {n piece size block : Nat}

theorem sub64_pieces (hps : 0 < info.ps) (hlast : (n - 1) * info.ps < info.total)
    (hpiece : piece < n) : sub64 n 1 = n - 1 := by
  have hn : n - 1 < 2 ^ 64 :=
    calc n - 1 ≤ (n - 1) * info.ps := Nat.le_mul_of_pos_right _ hps
      _ < 2 ^ 64 := Nat.lt_trans hlast info.total_lt_two_pow
  unfold sub64
  omega

theorem pieceSizeOf_eq {info : TorrentInfo} {n p : Nat} (hps : 0 < info.ps)
    (hlast : (n - 1) * info.ps < info.total) (hall : info.total ≤ n * info.ps) (hp : p < n) :
    info.pieceSizeOf n p = info.pieceLen p := by
  unfold pieceSizeOf
  rw [sub64_pieces hps hlast hp]
  by_cases h : p = n - 1
  · rw [if_pos h]
    have hend : info.total ≤ p * info.ps + info.ps := by
      rwa [show n = p + 1 by omega, Nat.add_mul, Nat.one_mul] at hall
    exact info.remainder_eq_pieceLen (h ▸ hlast) hend
  · rw [if_neg h]
    have hnext : (p + 1) * info.ps ≤ (n - 1) * info.ps := Nat.mul_le_mul_right _ (by omega)
    rw [Nat.add_mul, Nat.one_mul] at hnext
    show info.ps = min info.ps (info.total - p * info.ps)
    omega

theorem blockCount_eq (hsize : size ≤ 2 ^ 31) :
    blockCount size = (size + blockSize - 1) / blockSize := by
  unfold blockCount u32 u64 sub64 blockSize
  omega

theorem blockRequest_eq (hsize : size ≤ 2 ^ 31) (hblock : block < blockCount size) :
    blockRequest size piece block = ⟨UInt32.ofNat piece, UInt32.ofNat (block * blockSize),
      UInt32.ofNat (min blockSize (size - block * blockSize))⟩ := by
  rw [blockCount_eq hsize] at hblock
  have hoffset : u32 (block * blockSize) = block * blockSize := by
    unfold u32 blockSize at *
    omega
  have hsub : sub32 (blockCount size) 1 = blockCount size - 1 := by
    rw [blockCount_eq hsize]
    unfold sub32 blockSize at *
    omega
  have hlength : (if block = blockCount size - 1 then u32 (sub64 size (block * blockSize))
      else blockSize) = min blockSize (size - block * blockSize) := by
    rw [blockCount_eq hsize]
    unfold u32 sub64 blockSize at *
    split <;> omega
  simp only [blockRequest, hoffset, hsub, hlength]

theorem cancelRequest_of_size (hle : size ≤ 2 ^ 31) (hblock : block * blockSize < size)
    (hsize : (if piece = sub64 n 1 then sub64 info.total (u64 (piece * info.ps)) else info.ps) =
      size) :
    cancelRequest info n piece block = ⟨UInt32.ofNat piece, UInt32.ofNat (block * blockSize),
      UInt32.ofNat (min blockSize (size - block * blockSize))⟩ := by
  unfold cancelRequest
  dsimp only
  rw [hsize]
  unfold u32 sub64 blockSize at *
  rw [Nat.mod_eq_of_lt (by omega)]
  congr 2
  split <;> omega

theorem mul_blockSize_lt (hsize : size ≤ 2 ^ 31) (hblock : block < blockCount size) :
    block * blockSize < size := by
  rw [blockCount_eq hsize] at hblock
  unfold blockSize at *
  omega

section Pieces

variable (hps : 0 < info.ps) (hle : info.ps ≤ 2 ^ 31) (hlast : (n - 1) * info.ps < info.total)
  (hpiece : piece < n)

include hps hle hlast hpiece

theorem cancelRequest_eq (hall : info.total ≤ n * info.ps)
    (hblock : block < blockCount (info.pieceLen piece)) :
    cancelRequest info n piece block = blockRequest (info.pieceLen piece) piece block := by
  have hlen := info.pieceLen_le piece
  rw [blockRequest_eq (by omega) hblock]
  refine cancelRequest_of_size (by omega) (mul_blockSize_lt (by omega) hblock) ?_
  -- the size of the piece from the size of the torrent
  have hstart : piece * info.ps ≤ (n - 1) * info.ps := Nat.mul_le_mul_right _ (by omega)
  have htotal := info.total_lt_two_pow
  rw [sub64_pieces hps hlast hpiece]
  unfold sub64 u64 pieceLen
  split
  · next heq =>
    rw [show n = piece + 1 by omega, Nat.add_mul] at hall
    omega
  · have hnext : (piece + 1) * info.ps ≤ (n - 1) * info.ps := Nat.mul_le_mul_right _ (by omega)
    rw [Nat.add_mul] at hnext
    omega

/-- The index that does not fit into 32 bits becomes one of a whole piece. -/
theorem cancelRequest_wrapped (hbig : 2 ^ 32 ≤ piece)
    (hblock : block < blockCount (info.pieceLen piece)) :
    cancelRequest info n (u32 piece) block = ⟨UInt32.ofNat piece, UInt32.ofNat (block * blockSize),
      UInt32.ofNat (min blockSize (info.ps - block * blockSize))⟩ := by
  have hlen := info.pieceLen_le piece
  have hstart := mul_blockSize_lt (by omega) hblock
  have hwrap : u32 piece < 2 ^ 32 := Nat.mod_lt _ (by decide)
  have hindex : UInt32.ofNat (u32 piece) = UInt32.ofNat piece := by
    apply UInt32.toNat_inj.mp
    simp [u32]
  rw [cancelRequest_of_size hle (by omega)
    (if_neg (by rw [sub64_pieces hps hlast hpiece]; omega)), hindex]

/-- What is cancelled is what has been asked for exactly if the index fits, or the piece is as long
    as the others, or its last block as the others. -/
theorem cancels_agree_iff (hall : info.total ≤ n * info.ps) :
    (∀ block < blockCount (info.pieceLen piece),
      cancelRequest info n (u32 piece) block = blockRequest (info.pieceLen piece) piece block) ↔
    piece < 2 ^ 32 ∨ info.pieceLen piece = info.ps ∨ blockSize ∣ info.pieceLen piece := by
  by_cases hfits : piece < 2 ^ 32
  · have hindex : u32 piece = piece := Nat.mod_eq_of_lt hfits
    rw [hindex]
    exact iff_of_true (fun _ => cancelRequest_eq hps hle hlast hpiece hall) (.inl hfits)
  have hlen := info.pieceLen_le piece
  have hcount := blockCount_eq (show info.pieceLen piece ≤ 2 ^ 31 by omega)
  have hagree : ∀ block < blockCount (info.pieceLen piece),
      (cancelRequest info n (u32 piece) block = blockRequest (info.pieceLen piece) piece block ↔
        min blockSize (info.ps - block * blockSize) =
          min blockSize (info.pieceLen piece - block * blockSize)) := by
    intro block hblock
    rw [cancelRequest_wrapped hps hle hlast hpiece (by omega) hblock,
      blockRequest_eq (by omega) hblock]
    simp only [RequestPayload.mk.injEq, true_and, ← UInt32.toNat_inj, UInt32.toNat_ofNat']
    unfold blockSize
    omega
  constructor
  · intro hcancels
    -- of a shorter piece the last block is asked for only as far as it goes
    by_cases hempty : blockCount (info.pieceLen piece) = 0
    · rw [hcount] at hempty
      unfold blockSize at *
      omega
    · have hend := (hagree _ (by omega)).mp
        (hcancels (blockCount (info.pieceLen piece) - 1) (by omega))
      rw [hcount] at hend hempty
      unfold blockSize at *
      omega
  · intro hcond block hblock
    refine (hagree block hblock).mpr ?_
    rw [hcount] at hblock
    unfold blockSize at *
    omega

end Pieces

theorem blocks_consecutive (hsize : size ≤ 2 ^ 31) :
    Consecutive 0 size ((range (blockCount size)).map fun b =>
      (b * blockSize, min blockSize (size - b * blockSize))) := by
  have hfrom : ∀ m k, k + m = blockCount size → Consecutive (min (k * blockSize) size) size
      ((range' k m).map fun b => (b * blockSize, min blockSize (size - b * blockSize))) := by
    rw [blockCount_eq hsize]
    intro m
    unfold blockSize
    induction m with
    | zero =>
      intro k hk
      show min _ _ = _
      omega
    | succ m ih =>
      intro k hk
      specialize ih (k + 1) (by omega)
      simp only [range'_succ, map_cons, Consecutive]
      refine ⟨by omega, by omega, ?_⟩
      rwa [show min (k * 16384) size + min 16384 (size - k * 16384) = min ((k + 1) * 16384) size by
        omega]
  have hall := hfrom (blockCount size) 0 (Nat.zero_add _)
  rwa [Nat.zero_mul, Nat.zero_min, ← List.range_eq_range'] at hall

theorem length_restore (size : Nat) (bits : Bytes) : (restore size bits).data.length = size := by
  have hkeep : ∀ (l : List Nat) (p : InProgressPiece),
      (l.foldl (restoreBlock bits) p).data = p.data := by
    intro l
    induction l with
    | nil => exact fun p => rfl
    | cons i l ih =>
      intro p
      rw [foldl_cons, ih]
      unfold restoreBlock
      split <;> rfl
  unfold restore
  rw [hkeep]
  exact length_replicate

/-- For each piece of a torrent the requests are the same and tile the piece, with the size that a
    restored piece has. So are those of `send_cancel_for_block` exactly if the index of the piece
    fits into 32 bits, or its size is that of the other pieces or a multiple of a block. -/
theorem block_requests_agree (info : TorrentInfo) (htotal : 0 < info.total) (hps : 0 < info.ps)
    (hle : info.ps ≤ 2 ^ 31) (hceil : info.numPieces = (info.total + info.ps - 1) / info.ps)
    (piece : Nat) (hpiece : piece < info.numPieces) :
    let size := info.pieceSizeOf info.numPieces piece
    (∀ block < blockCount size,
      broadcastRequest info piece block = blockRequest size piece block ∧
      1 ≤ (blockRequest size piece block).length.toNat ∧
      (blockRequest size piece block).length.toNat ≤ 16384 ∧
      (blockRequest size piece block).begin.toNat / 16384 = block) ∧
    Consecutive 0 size ((range (blockCount size)).map fun block =>
      ((blockRequest size piece block).begin.toNat,
        (blockRequest size piece block).length.toNat)) ∧
    size = info.pieceLen piece ∧ (InProgressPiece.new size).data.length = size ∧
    (∀ bits, (restore size bits).data.length = size) ∧
    ((∀ block < blockCount size,
      cancelRequest info info.numPieces (u32 piece) block = blockRequest size piece block) ↔
        piece < 2 ^ 32 ∨ size = info.ps ∨ blockSize ∣ size) := by
  intro size
  have hpieces := Nat.div_add_mod (info.total + info.ps - 1) info.ps
  have hmod := Nat.mod_lt (info.total + info.ps - 1) hps
  rw [← hceil, Nat.mul_comm] at hpieces
  have hlast : (info.numPieces - 1) * info.ps < info.total := by
    rw [Nat.sub_mul]
    omega
  have hall : info.total ≤ info.numPieces * info.ps := by omega
  have hsize : size = info.pieceLen piece := pieceSizeOf_eq hps hlast hall hpiece
  have hlen := info.pieceLen_le piece
  clear_value size
  subst hsize
  have hreq : ∀ block < blockCount (info.pieceLen piece),
      (blockRequest (info.pieceLen piece) piece block).begin.toNat = block * blockSize ∧
      (blockRequest (info.pieceLen piece) piece block).length.toNat =
        min blockSize (info.pieceLen piece - block * blockSize) := by
    intro block hblock
    rw [blockRequest_eq (by omega) hblock]
    rw [blockCount_eq (by omega)] at hblock
    unfold blockSize at *
    constructor <;> rw [UInt32.toNat_ofNat'] <;> omega
  refine ⟨fun block hblock => ?_, ?_, rfl, length_replicate, length_restore _,
    cancels_agree_iff hps hle hlast hpiece hall⟩
  · have hbroadcast := cancelRequest_eq hps hle hlast hpiece hall hblock
    obtain ⟨hbegin, hlength⟩ := hreq block hblock
    rw [blockCount_eq (by omega)] at hblock
    rw [hbegin, hlength]
    unfold blockSize at *
    exact ⟨hbroadcast, by omega, by omega, by omega⟩
  · have hblocks := blocks_consecutive (show info.pieceLen piece ≤ 2 ^ 31 by omega)
    convert hblocks using 1
    apply map_congr_left
    intro block hblock
    obtain ⟨hbegin, hlength⟩ := hreq block (mem_range.mp hblock)
    rw [hbegin, hlength]

theorem block_requests_agree_five_bytes :
    let size := fiveByteInfo.pieceSizeOf fiveByteInfo.numPieces 2
    cancelRequest fiveByteInfo fiveByteInfo.numPieces (u32 2) 0 = blockRequest size 2 0 :=
  (block_requests_agree fiveByteInfo (by decide) (by decide) (by decide) (by decide) 2
    (by decide)).2.2.2.2.2.mpr (by decide) 0 (by decide)

theorem exists_hashes (count : Nat) : ∃ info : TorrentInfo,
    info.numPieces = count ∧ info.totalSize = 8589934593 ∧ info.pieceSize = 2 := by
  refine ⟨{ totalSize := 8589934593, pieceSize := 2, pieces := replicate (20 * count) 0 }, ?_,
    rfl, rfl⟩
  unfold numPieces
  rw [length_replicate]
  omega

/-- The last piece has one byte. -/
theorem cancel_of_last_piece_differs : ∃ info : TorrentInfo,
    info.numPieces = (info.total + info.ps - 1) / info.ps ∧ 4294967296 < info.numPieces ∧
      (blockRequest (info.pieceSizeOf info.numPieces 4294967296) 4294967296 0).length = 1 ∧
      (cancelRequest info info.numPieces (u32 4294967296) 0).length = 2 := by
  obtain ⟨info, hpieces, htotal, hps⟩ := exists_hashes 4294967297
  have hsize : info.pieceSizeOf 4294967297 4294967296 = 1 := by
    simp [pieceSizeOf, htotal, hps, sub64]
  refine ⟨info, ?_, ?_, ?_, ?_⟩ <;> rw [hpieces]
  · simp [total, ps, htotal, hps]
  · decide
  · rw [hsize]
    decide +kernel
  · simp [cancelRequest, hps, u32, sub64, blockSize]

end P2P
