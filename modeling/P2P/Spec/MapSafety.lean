import P2P.Spec.InfoDict
import P2P.Spec.MetadataBuffer
import P2P.Spec.PieceTiling

/-!
# Which accepted torrents can be mapped

The loader checks neither the piece length nor the number of hashes nor the lengths of the files.
-/

namespace P2P

open Bencode List Bytes

variable {info : TorrentInfo}

theorem mapPieces_defined {idx fileStart fileEnd : Nat} : ∀ (count p : Nat) (maps : FileMaps),
    p + count ≤ maps.pieceToFiles.length ∨ count = 0 →
    ∃ maps', mapPieces info idx fileStart fileEnd count p maps = .ok maps' ∧
      maps'.pieceToFiles.length = maps.pieceToFiles.length
  | 0, _, maps, _ => ⟨maps, rfl, rfl⟩
  | count + 1, p, maps, hle => by
    rw [mapPieces]
    split
    · exact mapPieces_defined count (p + 1) maps (by omega)
    · next overlap _ =>
      rw [if_pos (by omega)]
      obtain ⟨maps', hrun, hlen⟩ := mapPieces_defined count (p + 1)
        { pieceToFiles := maps.pieceToFiles.modify p (· ++ [overlap])
          fileToPieces := maps.fileToPieces.modify idx (· ++ [p]) } (by
            rw [length_modify]
            omega)
      exact ⟨maps', hrun, by rw [hlen, length_modify]⟩

/-- The position of a file's last byte, or of an empty file, in the arithmetic of `build_maps`. -/
def lastOffset (start : Nat) (file : FileInfo) : Nat :=
  if file.bytes = 0 then u64 start else u64 (start + file.bytes - 1)

def lastPieceIndex (info : TorrentInfo) (start : Nat) (file : FileInfo) : Nat :=
  u32 (lastOffset start file / info.ps)

theorem lastPieceIndex_eq (start : Nat) (file : FileInfo) :
    (if file.bytes = 0 then u32 (u64 start / info.ps)
      else u32 (sub64 (u64 (u64 start + file.bytes)) 1 / info.ps)) =
        lastPieceIndex info start file := by
  unfold lastPieceIndex lastOffset
  split
  · rfl
  · next hsize =>
    have hsub : sub64 (u64 (u64 start + file.bytes)) 1 = u64 (start + file.bytes - 1) := by
      unfold sub64 u64
      omega
    rw [hsub]

theorem endPiece_spec (start : Nat) (file : FileInfo) (hnum : 0 < info.numPieces) :
    let last := endPiece info (u64 (u64 start + file.bytes)) file.bytes (u32 (u64 start / info.ps))
    last < info.numPieces ∧
      (last = 2 ^ 32 - 1 ↔
        2 ^ 32 ≤ info.numPieces ∧ lastPieceIndex info start file = 2 ^ 32 - 1) := by
  have hlt : lastPieceIndex info start file < 2 ^ 32 := Nat.mod_lt _ (by decide)
  unfold endPiece
  rw [lastPieceIndex_eq]
  dsimp only
  generalize lastPieceIndex info start file = last at hlt ⊢
  split
  · have hsub : u32 (sub64 info.numPieces 1) = info.numPieces - 1 := by
      unfold u32 sub64
      omega
    omega
  · omega

theorem mapFiles_defined_iff (hps : info.ps ≠ 0) (hnum : 0 < info.numPieces) :
    ∀ (files : List FileInfo) (idx start : Nat) (maps : FileMaps),
    maps.pieceToFiles.length = info.numPieces →
    ((∃ maps', mapFiles info files idx (u64 start) maps = .ok maps') ↔
      ∀ (f : Nat) (file : FileInfo), files[f]? = some file →
        ¬ (2 ^ 32 ≤ info.numPieces ∧
          lastPieceIndex info (start + sizeSum (files.take f)) file = 2 ^ 32 - 1))
  | [], idx, start, maps, _ => by
    refine iff_of_true ⟨maps, rfl⟩ fun f file hf => ?_
    cases hf
  | file :: files, idx, start, maps, hlen => by
    obtain ⟨hlt, hend⟩ := endPiece_spec start file hnum
    have hnext : u64 (u64 start + file.bytes) = u64 (start + file.bytes) := by
      unfold u64
      omega
    generalize hlp : endPiece info (u64 (u64 start + file.bytes)) file.bytes
      (u32 (u64 start / info.ps)) = lp at hend hlt
    obtain ⟨maps₁, hrun₁, hlen₁⟩ : ∃ maps₁, mapPieces info idx (u64 start)
        (u64 (u64 start + file.bytes)) (lp + 1 - u32 (u64 start / info.ps))
        (u32 (u64 start / info.ps)) maps = .ok maps₁ ∧
          maps₁.pieceToFiles.length = maps.pieceToFiles.length :=
      mapPieces_defined _ _ _ (by omega)
    have hrest := mapFiles_defined_iff hps hnum files (idx + 1) (start + file.bytes) maps₁
      (hlen₁.trans hlen)
    have hshift : ∀ f, start + file.bytes + sizeSum (files.take f) =
        start + sizeSum ((file :: files).take (f + 1)) := by
      intro f
      rw [List.take_succ_cons, sizeSum_cons, Nat.add_assoc]
    simp only [hshift] at hrest
    rw [mapFiles, if_neg hps]
    dsimp only
    rw [hlp, hrun₁, hnext]
    by_cases hmax : lp = 2 ^ 32 - 1
    · -- the loop over the pieces of the first file does not end
      dsimp only
      rw [if_pos hmax]
      refine iff_of_false (fun hrun => ?_) fun hall => hall 0 file rfl (hend.mp hmax)
      cases hrun.choose_spec
    · dsimp only
      rw [if_neg hmax, hrest]
      constructor
      · intro hall f file' hf
        cases f with
        | zero =>
          obtain rfl : file = file' := Option.some.inj hf
          exact mt hend.mpr hmax
        | succ f => exact hall f file' hf
      · intro hall f file' hf
        exact hall (f + 1) file' hf

theorem mapFiles_no_pieces (hnum : info.numPieces = 0) (file : FileInfo) (files : List FileInfo)
    (idx start : Nat) (maps maps' : FileMaps) :
    mapFiles info (file :: files) idx start maps ≠ .ok maps' := by
  have hmax : ∀ fileEnd size startPiece, endPiece info fileEnd size startPiece = 2 ^ 32 - 1 := by
    intro fileEnd size startPiece
    unfold endPiece
    rw [hnum]
    exact if_pos (Nat.zero_le _)
  intro hrun
  rw [mapFiles] at hrun
  split at hrun
  · cases hrun
  · dsimp only at hrun
    rw [hmax] at hrun
    split at hrun
    · cases hrun
    · rw [if_pos rfl] at hrun
      cases hrun

theorem buildMaps_defined_iff (info : TorrentInfo) :
    (∃ maps, buildMaps info = .ok maps) ↔
      info.files = [] ∨ (info.ps ≠ 0 ∧ info.numPieces ≠ 0 ∧
        ∀ (f : Nat) (file : FileInfo), info.files[f]? = some file →
          ¬ (2 ^ 32 ≤ info.numPieces ∧
            lastPieceIndex info (info.fileStart f) file = 2 ^ 32 - 1)) := by
  unfold buildMaps
  cases hfiles : info.files with
  | nil => exact iff_of_true ⟨_, rfl⟩ (.inl rfl)
  | cons file files =>
    rw [← hfiles]
    have hne : info.files ≠ [] := by rw [hfiles]; exact cons_ne_nil file files
    by_cases hps : info.ps = 0
    · refine iff_of_false ?_ fun h => h.elim hne fun h => h.1 hps
      rintro ⟨maps, hrun⟩
      rw [hfiles, mapFiles, if_pos hps] at hrun
      cases hrun
    · by_cases hnum : info.numPieces = 0
      · refine iff_of_false ?_ fun h => h.elim hne fun h => h.2.1 hnum
        rintro ⟨maps, hrun⟩
        rw [hfiles] at hrun
        exact mapFiles_no_pieces hnum _ _ _ _ _ _ hrun
      · have hiff := mapFiles_defined_iff hps (Nat.pos_of_ne_zero hnum) info.files 0 0
          { pieceToFiles := replicate info.numPieces []
            fileToPieces := replicate info.files.length [] } length_replicate
        simp only [Nat.zero_add] at hiff
        rw [or_iff_right hne, and_iff_right hps, and_iff_right hnum]
        exact hiff

theorem toNat_pieceSize (pieceLength : Int64) :
    (pieceLength.toUInt64.toUInt32.toNat : Int) = pieceLength.toInt % 2 ^ 32 := by
  rw [UInt64.toNat_toUInt32]
  push_cast
  rw [toNat_toUInt64]
  omega

/-- An accepted dictionary can be mapped exactly when it has no files, or when the piece length is
    no multiple of `2 ^ 32`, there are hashes, and there are fewer than `2 ^ 32` or no file has a
    last piece with the largest index. -/
theorem accepted_mapped_iff (d : Dict) (hpop : Populates d) (pieceLength : Int64) (pieces : Bytes)
    (hlength : Assoc.find? d (ascii "piece length") = some (.int pieceLength))
    (hpieces : Assoc.find? d (ascii "pieces") = some (.str pieces)) :
    (∃ maps, buildMaps (populated d) = .ok maps) ↔
      (populated d).files = [] ∨ (pieceLength.toInt % 2 ^ 32 ≠ 0 ∧ pieces ≠ [] ∧
        (pieces.length / 20 < 2 ^ 32 ∨
          ∀ (f : Nat) (file : FileInfo), (populated d).files[f]? = some file →
            lastPieceIndex (populated d) ((populated d).fileStart f) file ≠ 2 ^ 32 - 1)) := by
  have hsource := populates_source hpop
  obtain ⟨pieceLength', hlength', hps⟩ := hsource.pieceLength
  obtain rfl : pieceLength = pieceLength' :=
    Value.int.inj (Option.some.inj (hlength.symm.trans hlength'))
  have hpieces' : (populated d).pieces = pieces :=
    (Value.str.inj (Option.some.inj (hpieces.symm.trans hsource.pieces))).symm
  have hnum : (populated d).numPieces = pieces.length / 20 := by
    rw [TorrentInfo.numPieces, hpieces']
  have hhashes := hsource.hashes
  rw [hpieces'] at hhashes
  have hps0 : (populated d).ps ≠ 0 ↔ pieceLength.toInt % 2 ^ 32 ≠ 0 := by
    rw [← toNat_pieceSize, TorrentInfo.ps, hps]
    omega
  have hnum0 : (populated d).numPieces ≠ 0 ↔ pieces ≠ [] := by
    rw [hnum, ← length_pos_iff]
    omega
  rw [buildMaps_defined_iff, hps0, hnum0, hnum]
  apply or_congr_right
  apply and_congr_right
  intro _
  apply and_congr_right
  intro _
  by_cases hmany : 2 ^ 32 ≤ pieces.length / 20
  · rw [or_iff_right (by omega)]
    simp only [hmany, true_and, ne_eq]
  · refine iff_of_true (fun f file _ h => hmany h.1) (.inl (by omega))

def emptyFileDict : Dict :=
  [(Bytes.ascii "length", .int 0), (Bytes.ascii "name", .str (Bytes.ascii "a")),
    (Bytes.ascii "piece length", .int 16384), (Bytes.ascii "pieces", .str [])]

/-- The info dictionary that `create_from_file` makes of a directory with an empty file. -/
def emptyDirDict : Dict :=
  [(Bytes.ascii "files", .list [.dict [(Bytes.ascii "length", .int 0),
      (Bytes.ascii "path", .list [.str (Bytes.ascii "b")])]]),
    (Bytes.ascii "name", .str (Bytes.ascii "a")),
    (Bytes.ascii "piece length", .int 16384), (Bytes.ascii "pieces", .str [])]

def oneByteDict (pieceLength : Int64) (length : Int64) : Dict :=
  [(Bytes.ascii "length", .int length), (Bytes.ascii "name", .str (Bytes.ascii "a")),
    (Bytes.ascii "piece length", .int pieceLength),
    (Bytes.ascii "pieces", .str (List.replicate 20 97))]

theorem createInfoDict_empty (sha1 : Bytes → Bytes) :
    createInfoDict sha1 (.file (ascii "a") 0 (some [])) 16384 = .ok emptyFileDict ∧
      createInfoDict sha1 (.directory (ascii "a") [⟨[ascii "b"], 0, some []⟩]) 16384 =
        .ok emptyDirDict := by
  have hfile : hashFile sha1 16384 [] [] [] = ([], []) := by
    rw [hashFile]
    rfl
  have hpieces : hashFiles sha1 16384 [some []] [] [] = some [] := by
    rw [hashFiles, hfile]
    rfl
  constructor
  · unfold createInfoDict
    rw [if_neg (by decide), show hashFiles sha1 (16384 : UInt32).toNat
      (Source.contents (.file (ascii "a") 0 (some []))) [] [] = some [] from hpieces]
    rfl
  · unfold createInfoDict
    rw [if_neg (by decide), show hashFiles sha1 (16384 : UInt32).toNat
      (Source.contents (.directory (ascii "a") [⟨[ascii "b"], 0, some []⟩])) [] [] =
        some [] from hpieces]
    rfl

theorem accepted_mapped_one_byte :
    Populates (oneByteDict 1 1) ∧ ∃ maps, buildMaps (populated (oneByteDict 1 1)) = .ok maps := by
  refine ⟨rfl, (accepted_mapped_iff (oneByteDict 1 1) rfl 1 (replicate 20 97) rfl rfl).mpr ?_⟩
  exact .inr ⟨by decide, by decide, .inl (by decide)⟩

/-- Accepted dictionaries that cannot be mapped: two piece lengths that leave a size of zero, and
    what `create_from_file` makes of an empty file and of a directory with one. -/
theorem accepted_not_mapped :
    (Populates (oneByteDict 0 1) ∧
      buildMaps (populated (oneByteDict 0 1)) = .error .divisionByZero) ∧
    (Populates (oneByteDict (2 ^ 32) 1) ∧
      buildMaps (populated (oneByteDict (2 ^ 32) 1)) = .error .divisionByZero) ∧
    (createInfoDict id (.file (ascii "a") 0 (some [])) 16384 = .ok emptyFileDict ∧
      Populates emptyFileDict ∧ ∀ maps, buildMaps (populated emptyFileDict) ≠ .ok maps) ∧
    (createInfoDict id (.directory (ascii "a") [⟨[ascii "b"], 0, some []⟩]) 16384 =
        .ok emptyDirDict ∧
      Populates emptyDirDict ∧ ∀ maps, buildMaps (populated emptyDirDict) ≠ .ok maps) ∧
    (Populates (oneByteDict 1 (-1)) ∧
      (populated (oneByteDict 1 (-1))).totalSize.toNat = 2 ^ 64 - 1) := by
  refine ⟨⟨rfl, by decide⟩, ⟨rfl, by decide⟩, ⟨(createInfoDict_empty id).1, rfl, ?_⟩,
    ⟨(createInfoDict_empty id).2, rfl, ?_⟩, rfl, by decide⟩
  · intro maps
    exact mapFiles_no_pieces rfl _ _ _ _ _ _
  · intro maps
    exact mapFiles_no_pieces rfl _ _ _ _ _ _

end P2P
