import P2P.ForStd.Tiling
import P2P.Spec.PieceMap

/-!
# The maps between pieces and files

The files of a torrent lie one after the other, and so do its pieces.
-/

namespace P2P

open Tiling List Option Nat

def TorrentInfo.fileStart (info : TorrentInfo) (f : Nat) : Nat := sizeSum (info.files.take f)

variable {info : TorrentInfo}

section Piece

variable {p : Nat}

theorem mem_overlapsOf {o : PieceFileOverlap} : ∀ {files : List FileInfo} {idx start : Nat},
    o ∈ overlapsOf info p files idx start ↔
      ∃ j file, files[j]? = some file ∧
        exactOverlap info (idx + j) (start + sizeSum (files.take j)) file p = some o
  | [], idx, start => by simp [overlapsOf]
  | file :: files, idx, start => by
    rw [overlapsOf, mem_append, mem_toList, mem_overlapsOf]
    constructor
    · rintro (h | ⟨j, file', hfile, h⟩)
      · exact ⟨0, file, rfl, h⟩
      · refine ⟨j + 1, file', hfile, ?_⟩
        rw [take_succ_cons, sizeSum_cons, ← h]
        congr 1
        · omega
        · omega
    · rintro ⟨j, file', hfile, h⟩
      cases j with
      | zero =>
        obtain rfl : file = file' := some.inj hfile
        exact .inl h
      | succ j =>
        refine .inr ⟨j, file', hfile, ?_⟩
        rw [take_succ_cons, sizeSum_cons] at h
        rw [← h]
        congr 1
        · omega
        · omega

theorem exactOverlap_eq_some {idx start : Nat} {file : FileInfo} {o : PieceFileOverlap}
    (h : exactOverlap info idx start file p = some o) :
    o.fileIndex = idx ∧ start + o.offsetInFile = p * info.ps + o.offsetInPiece := by
  unfold exactOverlap at h
  dsimp only at h
  split at h
  · rw [← some.inj h]
    refine ⟨rfl, ?_⟩
    dsimp only
    omega
  · exact nomatch h

theorem pairwise_overlapsOf : ∀ (files : List FileInfo) (idx start : Nat),
    (overlapsOf info p files idx start).Pairwise (·.fileIndex < ·.fileIndex)
  | [], _, _ => .nil
  | file :: files, idx, start => by
    rw [overlapsOf, pairwise_append]
    refine ⟨?_, pairwise_overlapsOf files _ _, ?_⟩
    · cases exactOverlap info idx start file p with
      | none => exact .nil
      | some o => exact pairwise_singleton _ _
    · intro o ho o' ho'
      obtain ⟨j, file', -, h'⟩ := mem_overlapsOf.mp ho'
      rw [(exactOverlap_eq_some (mem_toList.mp ho)).1, (exactOverlap_eq_some h').1]
      omega

theorem map_exactOverlap_piece (idx start : Nat) (file : FileInfo) :
    (exactOverlap info idx start file p).map (fun o => (p * info.ps + o.offsetInPiece, o.length)) =
      cut (p * info.ps) (p * info.ps + info.pieceLen p) start file.bytes := by
  unfold exactOverlap cut
  dsimp only
  rw [max_comm start, min_comm (start + file.bytes)]
  split
  · rw [Option.map_some, Nat.add_sub_cancel' (Nat.le_max_left _ _)]
  · rfl

theorem map_exactOverlap_file (idx start : Nat) (file : FileInfo) :
    (exactOverlap info idx start file p).map (fun o => (start + o.offsetInFile, o.length)) =
      cut start (start + file.bytes) (p * info.ps) (info.pieceLen p) := by
  unfold exactOverlap cut
  dsimp only
  split
  · rw [Option.map_some, Nat.add_sub_cancel' (Nat.le_max_left _ _)]
  · rfl

theorem map_overlapsOf : ∀ (files : List FileInfo) (idx start : Nat),
    (overlapsOf info p files idx start).map (fun o => (p * info.ps + o.offsetInPiece, o.length)) =
      cuts (p * info.ps) (p * info.ps + info.pieceLen p) (files.map FileInfo.bytes) start
  | [], _, _ => rfl
  | file :: files, idx, start => by
    rw [overlapsOf, map_append, map_overlapsOf files, map_cons, cuts,
      ← map_exactOverlap_piece idx start file, toList_map]

theorem consecutive_overlapsOf (hc : info.Tiled) (hp : p < info.numPieces) :
    Consecutive 0 (info.pieceLen p)
      ((overlapsOf info p info.files 0 0).map fun o => (o.offsetInPiece, o.length)) := by
  apply Consecutive.of_shift (c := p * info.ps)
  rw [List.map_map, Nat.add_zero]
  have hend : p * info.ps + info.pieceLen p ≤ 0 + (info.files.map FileInfo.bytes).sum := by
    rw [show (info.files.map FileInfo.bytes).sum = info.total from hc.sum_eq, Nat.zero_add]
    exact hc.start_add_pieceLen_le hp
  have htiles := consecutive_cuts (zero_le _) (le_add_right _ _) hend
  rwa [← map_overlapsOf info.files 0 0] at htiles

end Piece

section File

variable {f : Nat} {file : FileInfo}

theorem filter_exactOverlap {p : Nat} (idx start : Nat) (file : FileInfo) :
    (exactOverlap info idx start file p).toList.filter (·.fileIndex = f) =
      if idx = f then (exactOverlap info idx start file p).toList else [] := by
  cases hex : exactOverlap info idx start file p with
  | none => rw [toList_none, filter_nil, ite_self]
  | some o =>
    rw [toList_some, filter_singleton, (exactOverlap_eq_some hex).1]
    exact Bool.cond_decide _ _ _

theorem filter_overlapsOf {p : Nat} : ∀ (files : List FileInfo) (idx start j : Nat),
    files[j]? = some file →
    (overlapsOf info p files idx start).filter (·.fileIndex = idx + j) =
      (exactOverlap info (idx + j) (start + sizeSum (files.take j)) file p).toList
  | [], _, _, _, h => by simp at h
  | file' :: files, idx, start, 0, h => by
    obtain rfl : file' = file := some.inj h
    -- the other overlaps name files behind this one
    have hrest : (overlapsOf info p files (idx + 1) (start + file'.bytes)).filter
        (·.fileIndex = idx) = [] := by
      apply filter_eq_nil_iff.mpr
      intro o ho
      obtain ⟨j, file, -, hex⟩ := mem_overlapsOf.mp ho
      rw [(exactOverlap_eq_some hex).1, decide_eq_true_eq]
      omega
    rw [overlapsOf, filter_append, Nat.add_zero, filter_exactOverlap, if_pos rfl, hrest, append_nil]
    rfl
  | file' :: files, idx, start, j + 1, h => by
    have hrest := filter_overlapsOf (p := p) files (idx + 1) (start + file'.bytes) j h
    rw [overlapsOf, filter_append, filter_exactOverlap, if_neg (by omega), nil_append,
      take_succ_cons, sizeSum_cons, ← add_assoc start,
      show idx + (j + 1) = idx + 1 + j by omega]
    exact hrest

theorem piecesOfFile_eq : ∀ (files : List FileInfo) (idx start j : Nat),
    files[j]? = some file →
    piecesOfFile info (idx + j) files idx start =
      piecesOf info (idx + j) (start + sizeSum (files.take j)) file
  | [], _, _, _, h => by simp at h
  | file' :: files, idx, start, 0, h => by
    obtain rfl : file' = file := some.inj h
    rw [piecesOfFile, Nat.add_zero, if_pos rfl]
    rfl
  | file' :: files, idx, start, j + 1, h => by
    have hrest := piecesOfFile_eq files (idx + 1) (start + file'.bytes) j h
    rw [piecesOfFile, if_neg (by omega), take_succ_cons, sizeSum_cons, ← add_assoc start,
      show idx + (j + 1) = idx + 1 + j by omega]
    exact hrest

theorem cuts_pieces (hc : info.Tiled) {lo hi : Nat} : ∀ (count p : Nat),
    p + count = info.numPieces →
    cuts lo hi ((range' p count).map info.pieceLen) (p * info.ps) =
      (range' p count).flatMap fun q => (cut lo hi (q * info.ps) (info.pieceLen q)).toList
  | 0, p, _ => rfl
  | n + 1, p, hcount => by
    rw [range'_succ, map_cons, cuts, flatMap_cons]
    congr 1
    cases n with
    | zero => rfl
    | succ n =>
      -- a piece with another one behind it has the full size
      rw [hc.pieceLen_of_not_last (by omega), ← succ_mul]
      exact cuts_pieces hc (n + 1) (p + 1) (by omega)

theorem sum_pieceLen (hc : info.Tiled) : ∀ (count p : Nat), p + (count + 1) = info.numPieces →
    p * info.ps + ((range' p (count + 1)).map info.pieceLen).sum = info.total
  | 0, p, hcount => by
    have hstart := hc.start_lt (show p < info.numPieces by omega)
    have hend := hc.total_le
    rw [← hcount, Nat.zero_add, add_mul, one_mul] at hend
    rw [range'_one, map_singleton, sum_singleton, TorrentInfo.pieceLen]
    omega
  | n + 1, p, hcount => by
    have hrest := sum_pieceLen hc n (p + 1) (by omega)
    rw [add_mul, one_mul] at hrest
    rw [range'_succ, map_cons, sum_cons, hc.pieceLen_of_not_last (by omega), ← add_assoc, hrest]

theorem sizeSum_take_add_le : ∀ (files : List FileInfo) (f : Nat), files[f]? = some file →
    sizeSum (files.take f) + file.bytes ≤ sizeSum files
  | [], _, h => by simp at h
  | file' :: files, 0, h => by
    obtain rfl : file' = file := some.inj h
    rw [take_zero, sizeSum_nil, sizeSum_cons]
    omega
  | file' :: files, f + 1, h => by
    have hrest := sizeSum_take_add_le files f h
    rw [take_succ_cons, sizeSum_cons, sizeSum_cons]
    omega

theorem consecutive_pieces (hc : info.Tiled) (hf : info.files[f]? = some file) :
    Consecutive 0 file.bytes (((range info.numPieces).flatMap fun p =>
      (exactOverlap info f (info.fileStart f) file p).toList).map
        fun o => (o.offsetInFile, o.length)) := by
  apply Consecutive.of_shift (c := info.fileStart f)
  rw [List.map_map, Nat.add_zero, List.map_flatMap, List.range_eq_range']
  have hmap : ∀ p, (exactOverlap info f (info.fileStart f) file p).toList.map
      ((fun r : Nat × Nat => (info.fileStart f + r.1, r.2)) ∘ fun o => (o.offsetInFile, o.length)) =
      (cut (info.fileStart f) (info.fileStart f + file.bytes) (p * info.ps)
        (info.pieceLen p)).toList := by
    intro p
    rw [← map_exactOverlap_file f (info.fileStart f) file, toList_map]
    rfl
  simp only [hmap]
  obtain ⟨count, hcount⟩ := exists_eq_succ_of_ne_zero (ne_of_gt hc.numPieces_pos)
  have hsum := sum_pieceLen hc count 0 (by omega)
  have hend := sizeSum_take_add_le info.files f hf
  rw [hc.sum_eq] at hend
  have hcover : info.fileStart f + file.bytes ≤
      0 * info.ps + ((range' 0 info.numPieces).map info.pieceLen).sum := by
    rw [hcount, hsum]
    exact hend
  rw [← cuts_pieces hc info.numPieces 0 (Nat.zero_add _)]
  exact consecutive_cuts (by omega) (le_add_right _ _) hcover

end File

theorem tiled_of_ceil (hps : 0 < info.ps) (hsum : sizeSum info.files = info.total)
    (hnum : info.numPieces = (info.total + info.ps - 1) / info.ps) (hpos : 0 < info.numPieces)
    (hlt : info.numPieces < 2 ^ 32) : info.Tiled := by
  have hle := div_mul_le_self (info.total + info.ps - 1) info.ps
  have hgt := lt_mul_div_succ (info.total + info.ps - 1) hps
  rw [← hnum] at hle hgt
  rw [mul_succ, mul_comm] at hgt
  obtain ⟨n, hn⟩ := exists_eq_succ_of_ne_zero (ne_of_gt hpos)
  refine ⟨hps, hsum, hlt, ?_, by omega⟩
  rw [hn, succ_mul] at hle
  rw [hn, succ_sub_one]
  omega

section Maps

variable {p f : Nat} {file : FileInfo}

theorem filter_overlaps (hf : info.files[f]? = some file) :
    (overlapsOf info p info.files 0 0).filter (·.fileIndex = f) =
      (exactOverlap info f (info.fileStart f) file p).toList := by
  have hfilter : (overlapsOf info p info.files 0 0).filter (·.fileIndex = 0 + f) = _ :=
    filter_overlapsOf info.files 0 0 f hf
  rwa [Nat.zero_add, Nat.zero_add] at hfilter

theorem piecesOfFile_file (hf : info.files[f]? = some file) :
    piecesOfFile info f info.files 0 0 = piecesOf info f (info.fileStart f) file := by
  have hpieces : piecesOfFile info (0 + f) info.files 0 0 = _ := piecesOfFile_eq info.files 0 0 f hf
  rwa [Nat.zero_add, Nat.zero_add] at hpieces

theorem filter_flatten_overlaps (hf : info.files[f]? = some file) :
    ((range info.numPieces).map (overlapsOf info · info.files 0 0)).flatten.filter
        (·.fileIndex = f) =
      (List.range info.numPieces).flatMap fun p =>
        (exactOverlap info f (info.fileStart f) file p).toList := by
  rw [List.filter_flatten, List.map_map, ← List.flatMap_def]
  congr 1
  funext p
  exact filter_overlaps hf

theorem place_of_mem_overlapsOf {o : PieceFileOverlap} (ho : o ∈ overlapsOf info p info.files 0 0) :
    o.fileIndex < info.files.length ∧
      info.fileStart o.fileIndex + o.offsetInFile = p * info.ps + o.offsetInPiece := by
  obtain ⟨j, file, hfile, hex⟩ := mem_overlapsOf.mp ho
  obtain ⟨hidx, hplace⟩ := exactOverlap_eq_some hex
  rw [Nat.zero_add] at hidx hplace
  rw [hidx]
  exact ⟨(List.getElem?_eq_some_iff.mp hfile).1, hplace⟩

theorem mem_piecesOfFile (hf : f < info.files.length) :
    p ∈ piecesOfFile info f info.files 0 0 ↔
      p < info.numPieces ∧ ∃ o ∈ overlapsOf info p info.files 0 0, o.fileIndex = f := by
  have hfile : info.files[f]? = some info.files[f] := getElem?_eq_getElem hf
  rw [piecesOfFile_file hfile, piecesOf, mem_filter, mem_range]
  apply and_congr_right
  intro _
  constructor
  · intro hsome
    obtain ⟨o, ho⟩ := isSome_iff_exists.mp hsome
    have hmem : o ∈ (overlapsOf info p info.files 0 0).filter (·.fileIndex = f) := by
      rw [filter_overlaps hfile, mem_toList]
      exact ho
    rw [mem_filter, decide_eq_true_eq] at hmem
    exact ⟨o, hmem⟩
  · rintro ⟨o, ho, hidx⟩
    have hmem : o ∈ (overlapsOf info p info.files 0 0).filter (·.fileIndex = f) :=
      mem_filter.mpr ⟨ho, decide_eq_true hidx⟩
    rw [filter_overlaps hfile, mem_toList] at hmem
    exact isSome_iff_exists.mpr ⟨o, hmem⟩

theorem pairwise_piecesOfFile : ∀ (files : List FileInfo) (idx start : Nat),
    (piecesOfFile info f files idx start).Pairwise (· < ·)
  | [], _, _ => .nil
  | file :: files, idx, start => by
    rw [piecesOfFile]
    split
    · exact pairwise_lt_range.filter _
    · exact pairwise_piecesOfFile files _ _

theorem getElem?_map_range_eq_some {α : Type} {g : Nat → α} {n i : Nat} {a : α} :
    ((range n).map g)[i]? = some a ↔ i < n ∧ g i = a := by
  rw [getElem?_map, map_eq_some_iff]
  constructor
  · rintro ⟨j, hj, rfl⟩
    obtain ⟨hlt, rfl⟩ := List.getElem?_eq_some_iff.mp hj
    rw [List.length_range] at hlt
    rw [getElem_range]
    exact ⟨hlt, rfl⟩
  · rintro ⟨hlt, rfl⟩
    exact ⟨i, getElem?_range hlt, rfl⟩

end Maps

/-- The maps of metadata whose piece count is right. -/
theorem buildMaps_tiles (info : TorrentInfo) (hps : 0 < info.pieceSize.toNat)
    (hsum : sizeSum info.files = info.totalSize.toNat)
    (hnum : info.numPieces =
      (info.totalSize.toNat + info.pieceSize.toNat - 1) / info.pieceSize.toNat)
    (hpos : 0 < info.numPieces) (hlt : info.numPieces < 2 ^ 32) :
    ∃ maps : FileMaps, buildMaps info = .ok maps ∧
      maps.pieceToFiles.length = info.numPieces ∧
      maps.fileToPieces.length = info.files.length ∧
      (∀ (p : Nat) (overlaps : List PieceFileOverlap), maps.pieceToFiles[p]? = some overlaps →
        Consecutive 0 (info.pieceLen p) (overlaps.map fun o => (o.offsetInPiece, o.length)) ∧
        overlaps.Pairwise (·.fileIndex < ·.fileIndex) ∧
        ∀ o ∈ overlaps, o.fileIndex < info.files.length ∧
          info.fileStart o.fileIndex + o.offsetInFile =
            p * info.pieceSize.toNat + o.offsetInPiece) ∧
      (∀ (f : Nat) (file : FileInfo), info.files[f]? = some file →
        Consecutive 0 file.size.toNat ((maps.pieceToFiles.flatten.filter (·.fileIndex = f)).map
          fun o => (o.offsetInFile, o.length))) ∧
      ∀ (f : Nat) (pieces : List Nat), maps.fileToPieces[f]? = some pieces →
        pieces.Pairwise (· < ·) ∧
        ∀ p, p ∈ pieces ↔ ∃ overlaps, maps.pieceToFiles[p]? = some overlaps ∧
          ∃ o ∈ overlaps, o.fileIndex = f := by
  have hc : info.Tiled := tiled_of_ceil hps hsum hnum hpos hlt
  obtain ⟨maps, hrun, hpieces, hfiles⟩ := buildMaps_ok hc
  have hget : ∀ (p : Nat) (overlaps : List PieceFileOverlap),
      maps.pieceToFiles[p]? = some overlaps ↔
        p < info.numPieces ∧ overlapsOf info p info.files 0 0 = overlaps := by
    intro p overlaps
    rw [hpieces, getElem?_map_range_eq_some]
  refine ⟨maps, hrun, ?_, ?_, ?_, ?_, ?_⟩
  · rw [hpieces, length_map, length_range]
  · rw [hfiles, length_map, length_range]
  · intro p overlaps hp
    obtain ⟨hin, rfl⟩ := (hget p overlaps).mp hp
    exact ⟨consecutive_overlapsOf hc hin, pairwise_overlapsOf _ _ _,
      fun o ho => place_of_mem_overlapsOf ho⟩
  · intro f file hf
    rw [hpieces, filter_flatten_overlaps hf]
    exact consecutive_pieces hc hf
  · intro f pieces hf
    rw [hfiles, getElem?_map_range_eq_some] at hf
    obtain ⟨hf, rfl⟩ := hf
    refine ⟨pairwise_piecesOfFile _ _ _, fun p => ?_⟩
    rw [mem_piecesOfFile hf]
    constructor
    · rintro ⟨hp, hex⟩
      exact ⟨_, (hget p _).mpr ⟨hp, rfl⟩, hex⟩
    · rintro ⟨overlaps, hp, hex⟩
      obtain ⟨hin, rfl⟩ := (hget p overlaps).mp hp
      exact ⟨hin, hex⟩

/-- Five bytes in three files, one of them empty, and in pieces of two bytes. -/
def fiveByteInfo : TorrentInfo where
  totalSize := 5
  pieceSize := 2
  pieces := replicate 60 0
  files := [⟨PosixPath.empty, 3, true⟩, ⟨PosixPath.empty, 0, true⟩, ⟨PosixPath.empty, 2, true⟩]

theorem buildMaps_tiles_five :
    ∃ maps : FileMaps, buildMaps fiveByteInfo = .ok maps ∧
      maps.pieceToFiles[1]? = some [⟨0, 2, 0, 1⟩, ⟨2, 0, 1, 1⟩] ∧
      Consecutive 0 (fiveByteInfo.pieceLen 1) [(0, 1), (1, 1)] := by
  obtain ⟨maps, hrun, -, -, hpieces, -⟩ := buildMaps_tiles fiveByteInfo (by decide) (by decide)
    (by decide) (by decide) (by decide)
  have hmaps : buildMaps fiveByteInfo = .ok
      { pieceToFiles := [[⟨0, 0, 0, 2⟩], [⟨0, 2, 0, 1⟩, ⟨2, 0, 1, 1⟩], [⟨2, 1, 0, 1⟩]]
        fileToPieces := [[0, 1], [], [1, 2]] } := by decide
  obtain rfl := Except.ok.inj (hrun.symm.trans hmaps)
  exact ⟨_, hrun, rfl, (hpieces 1 _ rfl).1⟩

end P2P
