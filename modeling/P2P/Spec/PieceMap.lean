import P2P.Native.FileManager

/-!
# What `build_maps` computes

For consistent metadata none of the conversions and products in `build_maps` wraps around.
-/

namespace P2P

open List Option Nat FileManager

/-! ## Consistent metadata -/

abbrev FileInfo.bytes (file : FileInfo) : Nat := file.size.toNat

def sizeSum (files : List FileInfo) : Nat := (files.map FileInfo.bytes).sum

@[simp] theorem sizeSum_nil : sizeSum [] = 0 := rfl

@[simp] theorem sizeSum_cons (file : FileInfo) (files : List FileInfo) :
    sizeSum (file :: files) = file.bytes + sizeSum files := rfl

namespace TorrentInfo

variable (info : TorrentInfo)

abbrev ps : Nat := info.pieceSize.toNat

abbrev total : Nat := info.totalSize.toNat

/-- Metadata that describes a torrent: the sizes add up, there is a hash for each piece, and offsets
    and indices fit their types. -/
structure Consistent : Prop where
  ps_pos : 0 < info.ps
  sum_eq : sizeSum info.files = info.total
  total_lt : info.total < 2 ^ 63
  numPieces_lt : info.numPieces < 2 ^ 32
  pieces_lt : (info.numPieces - 1) * info.ps < info.total
  total_le : info.total ≤ info.numPieces * info.ps

structure Tiled : Prop where
  ps_pos : 0 < info.ps
  sum_eq : sizeSum info.files = info.total
  numPieces_lt : info.numPieces < 2 ^ 32
  pieces_lt : (info.numPieces - 1) * info.ps < info.total
  total_le : info.total ≤ info.numPieces * info.ps

def pieceLen (p : Nat) : Nat := min info.ps (info.total - p * info.ps)

theorem total_lt_two_pow : info.total < 2 ^ 64 := info.totalSize.toNat_lt

theorem pieceLen_le (p : Nat) : info.pieceLen p ≤ info.ps := min_le_left _ _

theorem pieceLen_lt (p : Nat) : info.pieceLen p < 2 ^ 32 :=
  lt_of_le_of_lt (info.pieceLen_le p) info.pieceSize.toNat_lt

theorem remainder_eq_pieceLen {p : Nat} (hstart : p * info.ps < info.total)
    (hend : info.total ≤ p * info.ps + info.ps) :
    (if info.total % info.ps = 0 then info.ps else info.total % info.ps) = info.pieceLen p := by
  have hmod : info.total % info.ps = (info.total - p * info.ps) % info.ps := by
    conv => lhs; rw [show info.total = (info.total - p * info.ps) + p * info.ps by omega]
    rw [add_mul_mod_self_right]
  rw [hmod, TorrentInfo.pieceLen]
  by_cases hfull : info.total - p * info.ps = info.ps
  · rw [hfull, mod_self, if_pos rfl, min_self]
  · rw [mod_eq_of_lt (by omega), if_neg (by omega), min_eq_right (by omega)]

end TorrentInfo

theorem TorrentInfo.Consistent.tiled {info : TorrentInfo} (hc : info.Consistent) : info.Tiled :=
  ⟨hc.ps_pos, hc.sum_eq, hc.numPieces_lt, hc.pieces_lt, hc.total_le⟩

namespace TorrentInfo.Tiled

variable {info : TorrentInfo} (hc : info.Tiled)

include hc

theorem numPieces_pos : 0 < info.numPieces := by
  have h₁ := hc.pieces_lt
  have h₂ := hc.total_le
  apply pos_of_ne_zero
  intro h
  rw [h] at h₁ h₂
  omega

variable {p : Nat}

theorem start_lt (hp : p < info.numPieces) : p * info.ps < info.total := by
  have hle : p * info.ps ≤ (info.numPieces - 1) * info.ps := mul_le_mul_right _ (by omega)
  exact lt_of_le_of_lt hle hc.pieces_lt

theorem pieceLen_of_not_last (hp : p + 1 < info.numPieces) : info.pieceLen p = info.ps := by
  have hnext := hc.start_lt hp
  rw [add_mul, one_mul] at hnext
  unfold TorrentInfo.pieceLen
  omega

theorem start_add_pieceLen_le (hp : p < info.numPieces) :
    p * info.ps + info.pieceLen p ≤ info.total := by
  have := hc.start_lt hp
  unfold TorrentInfo.pieceLen
  omega

theorem mapPieceSize_eq (hp : p < info.numPieces) : mapPieceSize info p = info.pieceLen p := by
  have hlast : sub64 info.numPieces 1 = info.numPieces - 1 := by
    have := hc.numPieces_lt
    unfold sub64
    omega
  unfold mapPieceSize
  rw [hlast]
  by_cases h : p = info.numPieces - 1
  · have hstart := hc.start_lt hp
    have hpos : info.total ≠ 0 := by omega
    have hend : info.total ≤ p * info.ps + info.ps := by
      have := hc.total_le
      have heq : info.numPieces = p + 1 := by omega
      rwa [heq, add_mul, one_mul] at this
    rw [if_pos h, if_neg hpos]
    exact info.remainder_eq_pieceLen hstart hend
  · rw [if_neg h, hc.pieceLen_of_not_last (by omega)]

end TorrentInfo.Tiled

/-! ## The overlaps of a piece -/

section Overlaps

variable (info : TorrentInfo)

def exactOverlap (idx start : Nat) (file : FileInfo) (p : Nat) : Option PieceFileOverlap :=
  let lo := max start (p * info.ps)
  let hi := min (start + file.bytes) (p * info.ps + info.pieceLen p)
  if lo < hi then some ⟨idx, lo - start, lo - p * info.ps, hi - lo⟩ else none

def overlapsOf (p : Nat) : List FileInfo → Nat → Nat → List PieceFileOverlap
  | [], _, _ => []
  | file :: files, idx, start =>
    (exactOverlap info idx start file p).toList ++
      overlapsOf p files (idx + 1) (start + file.bytes)

def piecesOf (idx start : Nat) (file : FileInfo) : List Nat :=
  (List.range info.numPieces).filter fun p => (exactOverlap info idx start file p).isSome

def piecesOfFile (f : Nat) : List FileInfo → Nat → Nat → List Nat
  | [], _, _ => []
  | file :: files, idx, start =>
    if f = idx then piecesOf info idx start file
    else piecesOfFile f files (idx + 1) (start + file.bytes)

variable {info} (hc : info.Tiled)

include hc

variable {start : Nat} {file : FileInfo}

theorem pieceOverlap_eq {p : Nat} (idx : Nat) (hp : p < info.numPieces)
    (hend : start + file.bytes ≤ info.total) :
    pieceOverlap info idx start (start + file.bytes) p = exactOverlap info idx start file p := by
  have htotal := info.total_lt_two_pow
  have hstart := hc.start_add_pieceLen_le hp
  have hlen := info.pieceLen_lt p
  have h₁ : u64 (p * info.ps) = p * info.ps := mod_eq_of_lt (by omega)
  have h₂ : u64 (p * info.ps + info.pieceLen p) = p * info.ps + info.pieceLen p :=
    mod_eq_of_lt (by omega)
  -- no number of the source wraps around
  simp only [pieceOverlap, exactOverlap, hc.mapPieceSize_eq hp, h₁, h₂, sub64, u32]
  by_cases h : max start (p * info.ps) < min (start + file.bytes) (p * info.ps + info.pieceLen p)
  · rw [if_pos h, if_pos h]
    congr 2
    · omega
    · omega
    · omega
  · rw [if_neg h, if_neg h]

theorem exactOverlap_eq_none {p : Nat} (idx : Nat)
    (hout : p < start / info.ps ∨ file.bytes = 0 ∨ (start + file.bytes - 1) / info.ps < p) :
    exactOverlap info idx start file p = none := by
  have hps := hc.ps_pos
  have hlen := info.pieceLen_le p
  unfold exactOverlap
  apply if_neg
  -- the piece ends before the file, the file is empty, or it ends before the piece
  rcases hout with h | h | h
  · have : (p + 1) * info.ps ≤ start := (le_div_iff_mul_le hps).mp h
    rw [add_mul, one_mul] at this
    omega
  · omega
  · have := (div_lt_iff_lt_mul hps).mp h
    omega

theorem mapPieces_ok {start : Nat} {file : FileInfo} (idx : Nat)
    (hend : start + file.bytes ≤ info.total) : ∀ (count p₀ : Nat) (maps : FileMaps),
    maps.pieceToFiles.length = info.numPieces → p₀ + count ≤ info.numPieces →
    ∃ maps', mapPieces info idx start (start + file.bytes) count p₀ maps = .ok maps' ∧
      maps'.pieceToFiles.length = info.numPieces ∧
      (∀ p, maps'.pieceToFiles[p]? = (maps.pieceToFiles[p]?).map fun os =>
        os ++ if p₀ ≤ p ∧ p < p₀ + count then (exactOverlap info idx start file p).toList else []) ∧
      maps'.fileToPieces = maps.fileToPieces.modify idx (· ++ (range' p₀ count).filter
        fun p => (exactOverlap info idx start file p).isSome)
  | 0, p₀, maps, hlen, _ => by
    refine ⟨maps, rfl, hlen, fun p => ?_, ?_⟩
    · rw [if_neg (by omega)]
      simp
    · simp only [range'_zero, filter_nil, append_nil]
      exact (modify_id idx maps.fileToPieces).symm
  | n + 1, p₀, maps, hlen, hle => by
    have hov := pieceOverlap_eq hc idx (show p₀ < info.numPieces by omega) hend
    cases hex : exactOverlap info idx start file p₀ with
    | none =>
      -- the first piece has no overlap, and the rest of the loop leaves it alone
      obtain ⟨maps', hrun, hlen', hget, hpieces⟩ :=
        mapPieces_ok idx hend n (p₀ + 1) maps hlen (by omega)
      refine ⟨maps', by simp only [mapPieces, hov, hex, hrun], hlen', fun p => ?_, ?_⟩
      · rw [hget]
        congr 1
        funext os
        by_cases hp : p = p₀
        · rw [if_neg (by omega), if_pos (by omega), hp, hex, toList_none]
        · simp only [show (p₀ + 1 ≤ p ∧ p < p₀ + 1 + n) ↔ (p₀ ≤ p ∧ p < p₀ + (n + 1)) by omega]
      · rw [hpieces, range'_succ, filter_cons_of_neg (by rw [hex]; exact nofun)]
    | some overlap =>
      -- the first piece gets its overlap, and the rest of the loop leaves it alone
      obtain ⟨maps', hrun, hlen', hget, hpieces⟩ := mapPieces_ok idx hend n (p₀ + 1)
        { pieceToFiles := maps.pieceToFiles.modify p₀ (· ++ [overlap])
          fileToPieces := maps.fileToPieces.modify idx (· ++ [p₀]) } (by simpa using hlen)
        (by omega)
      refine ⟨maps', ?_, hlen', fun p => ?_, ?_⟩
      · simp only [mapPieces, hov, hex, hlen, if_pos (show p₀ < info.numPieces by omega), hrun]
      · rw [hget, getElem?_modify, Option.map_eq_map, Option.map_map]
        congr 1
        funext os
        simp only [Function.comp_apply]
        by_cases hp : p₀ = p
        · rw [if_pos hp, if_neg (by omega), if_pos (by omega), ← hp, hex, toList_some, append_nil]
        · rw [if_neg hp]
          simp only [show (p₀ + 1 ≤ p ∧ p < p₀ + 1 + n) ↔ (p₀ ≤ p ∧ p < p₀ + (n + 1)) by omega]
      · rw [hpieces, modify_modify_eq, range'_succ, filter_cons_of_pos (by rw [hex]; rfl)]
        congr 1
        funext ps
        simp only [Function.comp_apply, append_assoc, singleton_append]

theorem endPiece_bounds (hend : start + file.bytes ≤ info.total) :
    u32 (start / info.ps) = start / info.ps ∧
    endPiece info (start + file.bytes) file.bytes (start / info.ps) < info.numPieces ∧
    (0 < file.bytes → endPiece info (start + file.bytes) file.bytes (start / info.ps) =
      (start + file.bytes - 1) / info.ps) := by
  have hps := hc.ps_pos
  have htotal := info.total_lt_two_pow
  have hnum := hc.numPieces_lt
  have hpos := hc.numPieces_pos
  have hstart : start / info.ps ≤ info.numPieces := by
    apply Nat.div_le_of_le_mul
    rw [Nat.mul_comm]
    exact Nat.le_trans (by omega) hc.total_le
  have hsub : u32 (sub64 info.numPieces 1) = info.numPieces - 1 := by
    unfold u32 sub64
    omega
  refine ⟨mod_eq_of_lt (by omega), ?_, ?_⟩
  · simp only [endPiece, hsub]
    -- whatever the last piece is, it is cut down to one that exists
    generalize (if file.bytes = 0 then _ else _) = last
    split <;> omega
  · intro hsize
    have hlast : (start + file.bytes - 1) / info.ps < info.numPieces := by
      rw [div_lt_iff_lt_mul hps]
      exact lt_of_lt_of_le (by omega) hc.total_le
    have heq : u32 (sub64 (start + file.bytes) 1 / info.ps) =
      (start + file.bytes - 1) / info.ps := by
      have : sub64 (start + file.bytes) 1 = start + file.bytes - 1 := by
        unfold sub64
        omega
      rw [this]
      exact mod_eq_of_lt (by omega)
    simp only [endPiece, if_neg (Nat.ne_of_gt hsize), heq]
    rw [if_neg (by omega)]

omit hc in
theorem filter_range'_eq_piecesOf {count p₀ : Nat} (idx : Nat)
    (hle : p₀ + count ≤ info.numPieces ∨ count = 0)
    (hout : ∀ p, ¬ (p₀ ≤ p ∧ p < p₀ + count) → exactOverlap info idx start file p = none) :
    ((range' p₀ count).filter fun p => (exactOverlap info idx start file p).isSome) =
      piecesOf info idx start file := by
  have hnone : ∀ a n, (∀ p ∈ range' a n, ¬ (p₀ ≤ p ∧ p < p₀ + count)) →
      ((range' a n).filter fun p => (exactOverlap info idx start file p).isSome) = [] := by
    intro a n hmem
    apply filter_eq_nil_iff.mpr
    intro p hp
    rw [hout p (hmem p hp)]
    exact nofun
  unfold piecesOf
  rw [range_eq_range']
  cases hle with
  | inl hle =>
    -- the pieces before the loop, in the loop and after it
    have hsplit : range' 0 info.numPieces =
        range' 0 p₀ ++ (range' p₀ count ++
          range' (p₀ + count) (info.numPieces - (p₀ + count))) := by
      have hrest := @range'_append_1 0 p₀ (count + (info.numPieces - (p₀ + count)))
      rw [zero_add] at hrest
      rw [range'_append_1, hrest]
      congr 1
      omega
    rw [hsplit, filter_append, filter_append, hnone 0 p₀, hnone (p₀ + count),
      nil_append, append_nil]
    · intro p hp
      rw [mem_range'_1] at hp
      omega
    · intro p hp
      rw [mem_range'_1] at hp
      omega
  | inr hzero =>
    rw [hzero, range'_zero, filter_nil, hnone 0 info.numPieces]
    intro p hp
    omega

theorem mapFile_ok (idx : Nat) (hend : start + file.bytes ≤ info.total) (maps : FileMaps)
    (hlen : maps.pieceToFiles.length = info.numPieces) :
    ∃ maps', mapPieces info idx start (start + file.bytes)
        (endPiece info (start + file.bytes) file.bytes (start / info.ps) + 1 - start / info.ps)
        (start / info.ps) maps = .ok maps' ∧
      maps'.pieceToFiles.length = info.numPieces ∧
      (∀ p, maps'.pieceToFiles[p]? = (maps.pieceToFiles[p]?).map fun os =>
        os ++ (exactOverlap info idx start file p).toList) ∧
      maps'.fileToPieces = maps.fileToPieces.modify idx (· ++ piecesOf info idx start file) := by
  obtain ⟨-, hlt, hlast⟩ := endPiece_bounds hc hend
  generalize endPiece info (start + file.bytes) file.bytes (start / info.ps) = lp at hlt hlast ⊢
  -- the pieces that the loop does not visit have no overlap with the file
  have hout : ∀ p, ¬ (start / info.ps ≤ p ∧ p < start / info.ps + (lp + 1 - start / info.ps)) →
      exactOverlap info idx start file p = none := by
    intro p hp
    apply exactOverlap_eq_none hc
    by_cases hsize : 0 < file.bytes
    · rw [← hlast hsize]
      omega
    · omega
  have hcount : start / info.ps + (lp + 1 - start / info.ps) ≤ info.numPieces ∨
      lp + 1 - start / info.ps = 0 := by omega
  have hpieces := filter_range'_eq_piecesOf idx hcount hout
  cases hcount with
  | inl hcount =>
    obtain ⟨maps', hrun, hlen', hget, hfiles⟩ := mapPieces_ok hc idx hend _ _ maps hlen hcount
    refine ⟨maps', hrun, hlen', fun p => ?_, by rw [hfiles, hpieces]⟩
    rw [hget]
    congr 1
    funext os
    split
    · rfl
    · next hp => rw [hout p hp, toList_none]
  | inr hcount =>
    -- a file that starts behind the last piece has no pieces at all
    rw [hcount] at hout hpieces ⊢
    refine ⟨maps, rfl, hlen, fun p => ?_, ?_⟩
    · rw [hout p (by omega), toList_none]
      simp
    · rw [← hpieces]
      simp only [range'_zero, filter_nil, append_nil]
      exact (modify_id idx maps.fileToPieces).symm

omit hc in
theorem piecesOfFile_of_lt {f : Nat} : ∀ (files : List FileInfo) (idx start : Nat), f < idx →
    piecesOfFile info f files idx start = []
  | [], _, _, _ => rfl
  | file :: files, idx, start, hlt => by
    rw [piecesOfFile, if_neg (by omega), piecesOfFile_of_lt files _ _ (by omega)]

theorem mapFiles_ok : ∀ (files : List FileInfo) (idx start : Nat) (maps : FileMaps),
    start + sizeSum files ≤ info.total → maps.pieceToFiles.length = info.numPieces →
    ∃ maps', mapFiles info files idx start maps = .ok maps' ∧
      maps'.pieceToFiles.length = info.numPieces ∧
      (∀ p, maps'.pieceToFiles[p]? = (maps.pieceToFiles[p]?).map fun os =>
        os ++ overlapsOf info p files idx start) ∧
      ∀ f, maps'.fileToPieces[f]? = (maps.fileToPieces[f]?).map fun ps =>
        ps ++ piecesOfFile info f files idx start
  | [], idx, start, maps, _, hlen =>
    ⟨maps, rfl, hlen, fun p => by simp [overlapsOf], fun f => by simp [piecesOfFile]⟩
  | file :: files, idx, start, maps, hsum, hlen => by
    rw [sizeSum_cons] at hsum
    have htotal := info.total_lt_two_pow
    have hnum := hc.numPieces_lt
    have hend : start + file.bytes ≤ info.total := by omega
    have hu : u64 (start + file.bytes) = start + file.bytes := mod_eq_of_lt (by omega)
    obtain ⟨hfirst, hlt, -⟩ := endPiece_bounds hc hend
    obtain ⟨maps₁, hrun₁, hlen₁, hget₁, hfiles₁⟩ := mapFile_ok hc idx hend maps hlen
    obtain ⟨maps', hrun, hlen', hget, hfiles⟩ :=
      mapFiles_ok files (idx + 1) (start + file.bytes) maps₁ (by omega) hlen₁
    refine ⟨maps', ?_, hlen', fun p => ?_, fun f => ?_⟩
    · have hne : endPiece info (start + file.bytes) file.bytes (start / info.ps) ≠ 2 ^ 32 - 1 := by
        omega
      simp only [mapFiles, if_neg (Nat.ne_of_gt hc.ps_pos), hu, hfirst, hrun₁, if_neg hne, hrun]
    · rw [hget, hget₁, Option.map_map]
      congr 1
      funext os
      simp only [Function.comp_apply, overlapsOf, append_assoc]
    · rw [hfiles, hfiles₁, getElem?_modify, Option.map_eq_map, Option.map_map]
      congr 1
      funext ps
      simp only [Function.comp_apply, piecesOfFile]
      by_cases hf : idx = f
      · rw [if_pos hf, if_pos hf.symm, piecesOfFile_of_lt files _ _ (by omega), append_nil]
      · rw [if_neg hf, if_neg (Ne.symm hf)]

omit hc in
private theorem map_getElem?_replicate {α : Type} (n p : Nat) (g : Nat → List α) :
    ((replicate n ([] : List α))[p]?).map (fun l => l ++ g p) = ((range n).map g)[p]? := by
  rw [getElem?_replicate, getElem?_map]
  split
  · next hlt => rw [getElem?_range hlt, map_some, map_some, nil_append]
  · next hge => rw [getElem?_eq_none (by rw [length_range]; omega), map_none, map_none]

theorem buildMaps_ok : ∃ maps, buildMaps info = .ok maps ∧
    maps.pieceToFiles = (range info.numPieces).map (overlapsOf info · info.files 0 0) ∧
    maps.fileToPieces = (range info.files.length).map (piecesOfFile info · info.files 0 0) := by
  obtain ⟨maps, hrun, hlen, hget, hfiles⟩ := mapFiles_ok hc info.files 0 0
    { pieceToFiles := replicate info.numPieces []
      fileToPieces := replicate info.files.length [] }
    (by rw [hc.sum_eq]; omega) (by simp)
  refine ⟨maps, hrun, ?_, ?_⟩
  · apply ext_getElem?
    intro p
    exact (hget p).trans (map_getElem?_replicate info.numPieces p
      (overlapsOf info · info.files 0 0))
  · apply ext_getElem?
    intro f
    exact (hfiles f).trans
      (map_getElem?_replicate info.files.length f (piecesOfFile info · info.files 0 0))

theorem buildMaps_eq : ∃ maps, buildMaps info = .ok maps ∧
    ∀ p < info.numPieces, maps.pieceToFiles[p]? = some (overlapsOf info p info.files 0 0) := by
  obtain ⟨maps, hrun, hpieces, -⟩ := buildMaps_ok hc
  refine ⟨maps, hrun, fun p hp => ?_⟩
  rw [hpieces, getElem?_map, getElem?_range hp, map_some]

end Overlaps

/-! ## The writes of a block -/

/-- A torrent with consistent metadata and its maps, whose files are stored in different places. -/
structure Torrent extends Env where
  consistent : info.Consistent
  maps_eq : buildMaps info = .ok maps
  files_nodup : (info.files.map fun file => resolve (toEnv.getFullPathForFile file)).Nodup

/-- The writes that bring `data` to position `lo`: its intersections with the downloaded files. -/
def fileWrites (E : Env) (lo : Nat) (data : Bytes) : List FileInfo → Nat → List FileWrite
  | [], _ => []
  | file :: files, start =>
    let a := max lo start
    let b := min (lo + data.length) (start + file.bytes)
    if file.download = true ∧ a < b then
      ⟨E.getFullPathForFile file, a - start, data.slice (a - lo) (b - a)⟩ ::
        fileWrites E lo data files (start + file.bytes)
    else fileWrites E lo data files (start + file.bytes)

section Writes

variable {E : Env} {p off : Nat} {data : Bytes}

private theorem inter_start {P off start s i : Nat} (hs : max start P = P + s)
    (hi : max off s = i) : max (P + off) start = P + i := by omega

private theorem inter_end {P L off len fileEnd e j : Nat} (he : min fileEnd (P + L) = P + e)
    (hj : min (off + len) e = j) (hlen : off + len ≤ L) :
    min (P + off + len) fileEnd = P + j := by omega

theorem blockWrites_eq (hlen : off + data.length ≤ E.info.pieceLen p)
    (hp : p * E.info.ps + E.info.pieceLen p < 2 ^ 63) :
    ∀ (files : List FileInfo) (idx start : Nat), start + sizeSum files < 2 ^ 63 →
    (∀ j, E.info.files[idx + j]? = files[j]?) →
    blockWrites E ⟨p, off⟩ data (overlapsOf E.info p files idx start) =
      fileWrites E (p * E.info.ps + off) data files start
  | [], _, _, _, _ => rfl
  | file :: files, idx, start, hsum, hfiles => by
    rw [sizeSum_cons] at hsum
    have hlt := E.info.pieceLen_lt p
    have hrec := blockWrites_eq hlen hp files (idx + 1) (start + file.bytes) (by omega) fun j => by
      have := hfiles (j + 1)
      rwa [add_comm j 1, ← add_assoc, add_comm 1 j, getElem?_cons_succ] at this
    have hfile : E.info.files[idx]? = some file := hfiles 0
    simp only [overlapsOf, fileWrites]
    by_cases h : max start (p * E.info.ps) <
        min (start + file.bytes) (p * E.info.ps + E.info.pieceLen p)
    · simp only [exactOverlap, if_pos h, toList_some, singleton_append,
        blockWrites, hfile]
      cases hd : file.download with
      | false => simpa using hrec
      | true =>
        generalize p * E.info.ps = P at *
        -- relative to the start of the piece, the overlap is `[s, e)` and the
        -- intersection `[i, j)`; everything is below 2 ^ 32
        obtain ⟨s, hs⟩ : ∃ s, max start P = P + s := ⟨max start P - P, by omega⟩
        obtain ⟨e, he⟩ : ∃ e, min (start + file.bytes) (P + E.info.pieceLen p) = P + e :=
          ⟨min (start + file.bytes) (P + E.info.pieceLen p) - P, by omega⟩
        obtain ⟨i, hi⟩ : ∃ i, max off s = i := ⟨_, rfl⟩
        obtain ⟨j, hj⟩ : ∃ j, min (off + data.length) e = j := ⟨_, rfl⟩
        have h₁ := inter_start hs hi
        have h₂ := inter_end he hj hlen
        have hsi : start ≤ P + s ∧ s ≤ i ∧ off ≤ i := by omega
        have hje : j ≤ e ∧ e < 2 ^ 32 := by omega
        rw [hs, he] at h
        have h₃ : u32 (off + u32 data.length) = off + data.length := by
          unfold u32
          omega
        simp only [hs, he, h₁, h₂, h₃, hrec, Bool.not_true, Bool.false_eq_true, if_false, true_and,
          gt_iff_lt, Nat.add_sub_cancel_left]
        clear hs he h₁ h₂
        have h₄ : u32 (s + (P + e - (P + s))) = e := by
          unfold u32
          omega
        simp only [h₄, hi, hj]
        clear hi hj
        by_cases hij : i < j
        · have h₅ : u64 (P + s - start + sub32 i s) = P + i - start := by
            unfold u64 sub32
            omega
          have h₆ : sub32 i off = P + i - (P + off) := by
            unfold sub32
            omega
          have h₇ : sub32 j i = P + j - (P + i) := by
            unfold sub32
            omega
          rw [if_pos hij, if_pos (by omega), h₅, h₆, h₇]
        · rw [if_neg hij, if_neg (by omega)]
    · have hi : ¬ max (p * E.info.ps + off) start <
          min (p * E.info.ps + off + data.length) (start + file.bytes) := by omega
      rw [if_neg (fun hh => hi hh.2)]
      simpa only [exactOverlap, if_neg h, toList_none, nil_append] using hrec

end Writes

namespace Torrent

variable (T : Torrent)

theorem writesOf_eq {p off : Nat} {data : Bytes} (hp : p < T.info.numPieces)
    (hlen : off + data.length ≤ T.info.pieceLen p) :
    writesOf T.toEnv ⟨p, off⟩ data =
      some (fileWrites T.toEnv (p * T.info.ps + off) data T.info.files 0) := by
  have hc := T.consistent
  have htotal := hc.total_lt
  have hend := hc.tiled.start_add_pieceLen_le hp
  obtain ⟨maps, hmaps, hget⟩ := buildMaps_eq hc.tiled
  have heq : T.maps = maps := by
    have := T.maps_eq
    rw [hmaps] at this
    exact (Except.ok.inj this).symm
  unfold writesOf
  rw [heq, hget p hp, map_some, blockWrites_eq hlen (by omega) _ 0 0
    (by rw [hc.sum_eq]; omega) fun j => by rw [zero_add]]

end Torrent

/-! ## A small torrent -/

def twoByteInfo : TorrentInfo where
  totalSize := 2
  pieceSize := 2
  pieces := List.replicate 20 0
  files := [{ path := PosixPath.empty, size := 2 }]

def twoByteTorrent (outcome : List Event → WriteOutcome) : Torrent where
  info := twoByteInfo
  maps := { pieceToFiles := [[⟨0, 0, 0, 2⟩]], fileToPieces := [[0]] }
  savePath := PosixPath.empty
  resolve := fun _ => 0
  outcome := outcome
  consistent := ⟨by decide, by decide, by decide, by decide, by decide, by decide⟩
  maps_eq := by decide
  files_nodup := by decide

abbrev twoByteEnv : Env := (twoByteTorrent fun _ => .success).toEnv

end P2P
