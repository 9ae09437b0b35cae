import P2P.Native.FileSelection
import P2P.Spec.PieceTiling

/-!
# Which files and pieces a new session downloads

`apply_file_selection` marks the files that are not wanted and the pieces inside of them.
-/

namespace P2P

open SessionState TorrentInfo List Option

/-! ## The torrent stays the same -/

def TorrentInfo.allFiles (info : TorrentInfo) : TorrentInfo :=
  { info with files := info.files.map fun file => { file with download := true } }

/-- Two states of a session that differ in the files and pieces that are wanted only. -/
structure SessionState.SameTorrent (s s' : SessionState) : Prop where
  info : s'.metaInfo.info.allFiles = s.metaInfo.info.allFiles
  numPieces : s'.numPieces = s.numPieces
  length : s'.pieceStatus.length = s.pieceStatus.length

namespace SessionState.SameTorrent

variable {s s' s'' : SessionState}

theorem refl (s : SessionState) : SameTorrent s s := ⟨rfl, rfl, rfl⟩

theorem trans (h : SameTorrent s s') (h' : SameTorrent s' s'') : SameTorrent s s'' :=
  ⟨h'.info.trans h.info, h'.numPieces.trans h.numPieces, h'.length.trans h.length⟩

theorem files_length (h : SameTorrent s s') :
    s'.metaInfo.info.files.length = s.metaInfo.info.files.length := by
  have hfiles := congrArg (·.files.length) h.info
  simpa [allFiles] using hfiles

theorem info_numPieces (h : SameTorrent s s') :
    s'.metaInfo.info.numPieces = s.metaInfo.info.numPieces := by
  have hnum : s'.metaInfo.info.allFiles.numPieces = s.metaInfo.info.allFiles.numPieces := by
    rw [h.info]
  exact hnum

end SessionState.SameTorrent

theorem TorrentInfo.tiled_of_allFiles {info info' : TorrentInfo}
    (h : info'.allFiles = info.allFiles) (hc : info.Tiled) : info'.Tiled := by
  have hbytes : ∀ i : TorrentInfo, sizeSum i.files = sizeSum i.allFiles.files := by
    intro i
    unfold sizeSum allFiles
    rw [List.map_map]
    rfl
  have hps : info'.pieceSize = info.pieceSize := congrArg (·.pieceSize) h
  have htotal : info'.totalSize = info.totalSize := congrArg (·.totalSize) h
  have hpieces : info'.pieces = info.pieces := congrArg (·.pieces) h
  have hsum : sizeSum info'.files = sizeSum info.files := by
    rw [hbytes info', hbytes info, h]
  obtain ⟨h₁, h₂, h₃, h₄, h₅⟩ := hc
  constructor <;> simp only [numPieces, ps, total, hps, htotal, hpieces, hsum]
  · exact h₁
  · exact h₂
  · exact h₃
  · exact h₄
  · exact h₅

/-! ## The flags of the files -/

section Flags

variable {s s' : SessionState}

theorem setPieceStatus_same (s : SessionState) (piece : Nat) (status : PieceStatus) :
    s.SameTorrent (s.setPieceStatus piece status) :=
  ⟨rfl, rfl, length_set⟩

def SessionState.flag (s : SessionState) (i : Nat) : Option Bool :=
  s.metaInfo.info.files[i]?.map (·.download)

variable {i : Nat} {val : Bool}

section

variable (h : s.updateFileStat i val = some s')

include h

theorem updateFileStat_files (j : Nat) :
    s'.metaInfo.info.files[j]? = s.metaInfo.info.files[j]?.map fun file =>
      if i = j then { file with download := val } else file := by
  unfold updateFileStat at h
  split at h
  · rw [← some.inj h]
    exact getElem?_modify ..
  · exact nomatch h

theorem updateFileStat_same : s.SameTorrent s' := by
  have hfiles : s'.metaInfo.info.files.map (fun file => { file with download := true }) =
      s.metaInfo.info.files.map fun file => { file with download := true } := by
    apply ext_getElem?
    intro j
    rw [getElem?_map, getElem?_map, updateFileStat_files h j, Option.map_map]
    congr 1
    funext file
    rw [Function.comp_apply]
    split
    · rfl
    · rfl
  unfold updateFileStat at h
  split at h
  · cases h
    exact ⟨congrArg (fun files => { s.metaInfo.info with files := files }) hfiles, rfl, rfl⟩
  · cases h

theorem updateFileStat_status : s'.pieceStatus = s.pieceStatus := by
  unfold updateFileStat at h
  split at h
  · rw [← some.inj h]
  · exact nomatch h

theorem updateFileStat_flag (j : Nat) :
    s'.flag j = (s.flag j).map fun old => if i = j then val else old := by
  unfold flag
  rw [updateFileStat_files h j, Option.map_map, Option.map_map]
  congr 1
  funext file
  rw [Function.comp_apply, Function.comp_apply]
  split
  · rfl
  · rfl

end

theorem skipPieces_same (s : SessionState) (fileStart fileEnd startPiece endPiece : Nat) :
    s.SameTorrent (skipPieces s fileStart fileEnd startPiece endPiece) := by
  unfold skipPieces
  generalize range' _ _ = pieces
  generalize s.metaInfo.info.pieceSize.toNat = pieceSize
  induction pieces generalizing s with
  | nil => exact .refl s
  | cons piece pieces ih =>
    rw [foldl_cons]
    refine .trans ?_ (ih _)
    dsimp only
    split
    · exact setPieceStatus_same s piece .skipped
    · exact .refl s

theorem selectFiles_same {pieceSize : Nat} : ∀ (files : List (FileInfo × Bool)) (i offset : Nat)
    (s s' : SessionState), selectFiles pieceSize files i offset s = some s' → s.SameTorrent s'
  | [], _, _, s, s', h => some.inj h ▸ .refl s
  | (file, selected) :: files, i, offset, s, s', h => by
    rw [selectFiles] at h
    split at h
    · cases h
    · dsimp only at h
      split at h
      · exact selectFiles_same files _ _ s s' h
      · obtain ⟨s₁, hupdate, hrest⟩ := bind_eq_some_iff.mp h
        exact ((updateFileStat_same hupdate).trans (skipPieces_same s₁ _ _ _ _)).trans
          (selectFiles_same files _ _ _ s' hrest)

theorem addTorrent_same {sha1 : Bytes → Bytes} {path : String} {file : Option Bytes}
    {selection : List Bool} (hload : ofTorrent sha1 path file = .ok s)
    (hadd : addTorrent sha1 path file selection = .ok s') : s.SameTorrent s' := by
  unfold addTorrent at hadd
  rw [hload] at hadd
  dsimp only at hadd
  split at hadd
  · exact Except.ok.inj hadd ▸ .refl s
  · split at hadd
    · cases hadd
    · next happly =>
      rw [← Except.ok.inj hadd]
      unfold applyFileSelection at happly
      dsimp only at happly
      split at happly
      · exact some.inj happly ▸ .refl s
      · exact selectFiles_same _ _ _ _ _ happly

end Flags

/-! ## Preallocation -/

section Preallocation

variable {H : Host} {maps : FileMaps} {s s' : SessionState} {disk disk' : Nat → Option Bytes}

theorem chooseFile_update {i : Nat} {decision decision' : Option Bool}
    (h : H.chooseFile s i decision = some (s', decision')) :
    ∃ val, s.updateFileStat i val = some s' := by
  have hmap : ∀ (val : Bool) (d : Option Bool),
      ((s.updateFileStat i val).map fun s => (s, d)) = some (s', decision') →
      ∃ val, s.updateFileStat i val = some s' := by
    intro val d hmap
    obtain ⟨s₁, hupdate, heq⟩ := map_eq_some_iff.mp hmap
    exact ⟨val, (Prod.mk.inj heq).1 ▸ hupdate⟩
  -- a decision for all files or one of the answers, each of them sets the flag
  unfold Host.chooseFile at h
  split at h
  · exact hmap _ _ h
  · split at h
    · cases h
    · repeat' split at h
      all_goals exact hmap _ _ h

theorem chooseFiles_cons {file : FileInfo} {files : List FileInfo} {i : Nat}
    {decision : Option Bool}
    (h : H.chooseFiles maps (file :: files) i decision s disk = some (s', disk')) :
    ∃ s₁ decision' disk₁, H.chooseFile s i decision = some (s₁, decision') ∧
      H.chooseFiles maps files (i + 1) decision' s₁ disk₁ = some (s', disk') := by
  rw [Host.chooseFiles] at h
  obtain ⟨⟨s₁, decision'⟩, hchoose, hrest⟩ := bind_eq_some_iff.mp h
  dsimp only at hrest
  split at hrest
  · obtain ⟨disk₁, -, hloop⟩ := bind_eq_some_iff.mp hrest
    exact ⟨s₁, decision', disk₁, hchoose, hloop⟩
  · exact ⟨s₁, decision', disk, hchoose, hrest⟩

theorem chooseFiles_same : ∀ (files : List FileInfo) (i : Nat) (decision : Option Bool)
    (s s' : SessionState) (disk disk' : Nat → Option Bytes),
    H.chooseFiles maps files i decision s disk = some (s', disk') →
    s.SameTorrent s' ∧ s'.pieceStatus = s.pieceStatus
  | [], _, _, s, s', disk, disk', h => by
    cases h
    exact ⟨.refl s, rfl⟩
  | file :: files, i, decision, s, s', disk, disk', h => by
    obtain ⟨s₁, decision', disk₁, hchoose, hloop⟩ := chooseFiles_cons h
    obtain ⟨val, hupdate⟩ := chooseFile_update hchoose
    obtain ⟨hsame, hstatus⟩ := chooseFiles_same files (i + 1) decision' s₁ s' disk₁ disk' hloop
    exact ⟨(updateFileStat_same hupdate).trans hsame, hstatus.trans (updateFileStat_status hupdate)⟩

theorem chooseFiles_approved : ∀ (files : List FileInfo) (i : Nat) (s s' : SessionState)
    (disk disk' : Nat → Option Bytes),
    H.chooseFiles maps files i (some true) s disk = some (s', disk') →
    s.metaInfo.info.files.length = i + files.length → (∀ j < i, s.flag j ≠ some false) →
    ∀ j, s'.flag j ≠ some false
  | [], i, s, s', disk, disk', h, hlen, hbefore => by
    cases h
    intro j
    by_cases hj : j < i
    · exact hbefore j hj
    · -- there is no file here
      have hnone : s.metaInfo.info.files[j]? = none := by
        apply getElem?_eq_none
        rw [hlen, length_nil]
        omega
      unfold flag
      rw [hnone]
      exact nofun
  | file :: files, i, s, s', disk, disk', h, hlen, hbefore => by
    obtain ⟨s₁, decision', disk₁, hchoose, hloop⟩ := chooseFiles_cons h
    obtain ⟨s₂, hupdate, heq⟩ := map_eq_some_iff.mp hchoose
    obtain ⟨rfl, rfl⟩ := Prod.mk.inj heq
    refine chooseFiles_approved files (i + 1) s₂ s' disk₁ disk' hloop ?_ ?_
    · rw [(updateFileStat_same hupdate).files_length, hlen, length_cons]
      omega
    · intro j hj
      rw [updateFileStat_flag hupdate j]
      by_cases hji : i = j
      · subst hji
        cases s.flag i with
        | none => exact nofun
        | some old => simp
      · have hold := hbefore j (by omega)
        cases hflag : s.flag j with
        | none => exact nofun
        | some old => simpa [hji, hflag] using hold

def wantedStatus (info : TorrentInfo) (maps : FileMaps) (p : Nat) : PieceStatus :=
  if Host.isNeeded info (maps.pieceToFiles.getD p []) then .needed else .skipped

theorem markPieces_spec : ∀ (pieces : List Nat) (s s' : SessionState),
    Host.markPieces maps pieces s = some s' →
    s.SameTorrent s' ∧ s'.metaInfo = s.metaInfo ∧ ∀ p, s'.pieceStatus[p]? =
      if p ∈ pieces then s.pieceStatus[p]?.map fun _ => wantedStatus s.metaInfo.info maps p
      else s.pieceStatus[p]?
  | [], s, s', h => by
    cases h
    exact ⟨.refl s, rfl, fun p => (if_neg not_mem_nil).symm⟩
  | piece :: pieces, s, s', h => by
    rw [Host.markPieces] at h
    obtain ⟨overlaps, hoverlaps, hloop⟩ := bind_eq_some_iff.mp h
    dsimp only at hloop
    have hwanted : (if Host.isNeeded s.metaInfo.info overlaps then PieceStatus.needed
      else .skipped) =
        wantedStatus s.metaInfo.info maps piece := by
      unfold wantedStatus
      rw [getD_eq_getElem?_getD, hoverlaps, getD_some]
    rw [hwanted] at hloop
    obtain ⟨hsame, hmeta, hstatus⟩ := markPieces_spec pieces _ s' hloop
    refine ⟨(setPieceStatus_same s _ _).trans hsame, hmeta, fun p => ?_⟩
    rw [hstatus p]
    unfold setPieceStatus
    dsimp only
    rw [getElem?_set]
    by_cases hp : piece = p
    · subst hp
      rw [if_pos rfl, if_pos (mem_cons_self ..)]
      by_cases hlt : piece < s.pieceStatus.length
      · rw [if_pos hlt, getElem?_eq_getElem hlt]
        simp
      · rw [if_neg hlt, getElem?_eq_none (by omega)]
        simp
    · simp [hp, Ne.symm hp]

end Preallocation

/-! ## Files and pieces -/

def TorrentInfo.Overlaps (info : TorrentInfo) (i p : Nat) : Prop :=
  ∃ file, info.files[i]? = some file ∧
    max (info.fileStart i) (p * info.ps) <
      min (info.fileStart i + file.bytes) (p * info.ps + info.pieceLen p)

section Overlaps

variable {info : TorrentInfo} {p : Nat}

theorem exists_mem_overlapsOf {i : Nat} :
    (∃ o ∈ overlapsOf info p info.files 0 0, o.fileIndex = i) ↔ info.Overlaps i p := by
  constructor
  · rintro ⟨o, ho, rfl⟩
    obtain ⟨j, file, hfile, h⟩ := mem_overlapsOf.mp ho
    rw [(exactOverlap_eq_some h).1, Nat.zero_add]
    rw [Nat.zero_add, Nat.zero_add] at h
    refine ⟨file, hfile, ?_⟩
    unfold exactOverlap at h
    dsimp only at h
    split at h
    · next hlt => exact hlt
    · cases h
  · rintro ⟨file, hfile, hlt⟩
    obtain ⟨o, ho⟩ : ∃ o, exactOverlap info i (info.fileStart i) file p = some o :=
      ⟨_, if_pos hlt⟩
    refine ⟨o, mem_overlapsOf.mpr ⟨i, file, hfile, ?_⟩, (exactOverlap_eq_some ho).1⟩
    rw [Nat.zero_add, Nat.zero_add]
    exact ho

theorem exists_overlaps (hc : info.Tiled) (hp : p < info.numPieces) : ∃ i, info.Overlaps i p := by
  have hcover := consecutive_overlapsOf hc hp
  cases hlist : overlapsOf info p info.files 0 0 with
  | nil =>
    rw [hlist, map_nil] at hcover
    have hlen : info.pieceLen p = 0 := hcover.symm
    have hstart := hc.start_lt hp
    have hps := hc.ps_pos
    unfold pieceLen at hlen
    omega
  | cons o overlaps =>
    refine ⟨o.fileIndex, exists_mem_overlapsOf.mp ⟨o, ?_, rfl⟩⟩
    rw [hlist]
    exact mem_cons_self ..

theorem isNeeded_overlapsOf (s : SessionState) :
    Host.isNeeded s.metaInfo.info (overlapsOf info p info.files 0 0) = true ↔
      ∃ i, info.Overlaps i p ∧ s.flag i = some true := by
  have hflag : ∀ i, s.metaInfo.info.files[i]?.any (·.download) = true ↔ s.flag i = some true := by
    intro i
    unfold flag
    cases s.metaInfo.info.files[i]? with
    | none => simp
    | some file => simp
  unfold Host.isNeeded
  rw [List.any_eq_true]
  constructor
  · rintro ⟨o, ho, hdownload⟩
    exact ⟨o.fileIndex, exists_mem_overlapsOf.mp ⟨o, ho, rfl⟩, (hflag _).mp hdownload⟩
  · rintro ⟨i, hoverlaps, hdownload⟩
    obtain ⟨o, ho, rfl⟩ := exists_mem_overlapsOf.mpr hoverlaps
    exact ⟨o, ho, (hflag _).mpr hdownload⟩

end Overlaps

/-! ## The start of a session -/

section Start

variable {H : Host} {s s' : SessionState} {maps : FileMaps} {disk disk' : Nat → Option Bytes}
  {autoApproveAll : Bool}

theorem preallocateFiles_parts
    (h : H.preallocateFiles autoApproveAll s disk = some (s', maps, disk')) :
    ∃ s₁, buildMaps s.metaInfo.info = .ok maps ∧
      H.chooseFiles maps s.metaInfo.info.files 0
        (if autoApproveAll then some true else none) s disk =
        some (s₁, disk') ∧
      Host.markPieces maps (range s₁.numPieces) s₁ = some s' := by
  unfold Host.preallocateFiles at h
  dsimp only at h
  split at h
  · cases h
  · next maps₁ hmaps =>
    generalize (if s.metaInfo.info.files.length > 1 then
      H.savePath.append ⟨s.metaInfo.info.name⟩ else H.savePath) = base at h
    split at h
    · cases h
    · obtain ⟨⟨s₁, disk₁⟩, hchoose, h₁⟩ := bind_eq_some_iff.mp h
      obtain ⟨s₂, hmark, h₂⟩ := bind_eq_some_iff.mp h₁
      obtain ⟨rfl, h₃⟩ := Prod.mk.inj (some.inj h₂)
      obtain ⟨rfl, rfl⟩ := Prod.mk.inj h₃
      exact ⟨s₁, hmaps, hchoose, hmark⟩

theorem preallocateFiles_approved (h : H.preallocateFiles true s disk = some (s', maps, disk')) :
    ∀ i, s'.flag i ≠ some false := by
  obtain ⟨s₁, -, hchoose, hmark⟩ := preallocateFiles_parts h
  have hflags := chooseFiles_approved _ 0 s s₁ disk disk' hchoose (Nat.zero_add _).symm nofun
  have hmeta := (markPieces_spec _ _ _ hmark).2.1
  intro i
  unfold flag
  rw [hmeta]
  exact hflags i

theorem preallocateFiles_same
    (h : H.preallocateFiles autoApproveAll s disk = some (s', maps, disk')) : s.SameTorrent s' := by
  obtain ⟨s₁, -, hchoose, hmark⟩ := preallocateFiles_parts h
  exact (chooseFiles_same _ _ _ _ _ _ _ hchoose).1.trans (markPieces_spec _ _ _ hmark).1

variable {p : Nat}

theorem preallocateFiles_skipped_iff
    (h : H.preallocateFiles autoApproveAll s disk = some (s', maps, disk'))
    (hc : s.metaInfo.info.Tiled) (hnum : s.numPieces = s.metaInfo.info.numPieces)
    (hlen : s.pieceStatus.length = s.numPieces) (hp : p < s.numPieces) :
    s'.pieceStatus[p]? = some .skipped ↔
      ∀ i, s.metaInfo.info.Overlaps i p → s'.flag i ≠ some true := by
  obtain ⟨s₁, hmaps, hchoose, hmark⟩ := preallocateFiles_parts h
  obtain ⟨hsame, hstatus₁⟩ := chooseFiles_same _ _ _ _ _ _ _ hchoose
  obtain ⟨-, hmeta, hstatus⟩ := markPieces_spec _ _ _ hmark
  obtain ⟨maps₁, hmaps₁, hoverlaps⟩ := buildMaps_eq hc
  obtain rfl : maps₁ = maps := Except.ok.inj (hmaps₁.symm.trans hmaps)
  have hmem : p ∈ range s₁.numPieces := by
    rw [mem_range, hsame.numPieces]
    exact hp
  have hlt : p < s.pieceStatus.length := by
    rw [hlen]
    exact hp
  have hwanted : s'.pieceStatus[p]? = some (wantedStatus s₁.metaInfo.info maps₁ p) := by
    rw [hstatus p, if_pos hmem, hstatus₁, getElem?_eq_getElem hlt, Option.map_some]
  have hneeded : Host.isNeeded s₁.metaInfo.info
      (overlapsOf s.metaInfo.info p s.metaInfo.info.files 0 0) = true ↔
      ∃ i, s.metaInfo.info.Overlaps i p ∧ s₁.flag i = some true := isNeeded_overlapsOf s₁
  have hflag : ∀ i, s'.flag i = s₁.flag i := by
    intro i
    unfold flag
    rw [hmeta]
  rw [hwanted, some_inj]
  unfold wantedStatus
  rw [getD_eq_getElem?_getD, hoverlaps p (hnum ▸ hp), getD_some]
  simp only [hflag]
  constructor
  · intro hskipped i hi hdownload
    rw [if_pos (hneeded.mpr ⟨i, hi, hdownload⟩)] at hskipped
    cases hskipped
  · intro hnone
    apply if_neg
    intro h
    obtain ⟨i, hi, hdownload⟩ := hneeded.mp h
    exact hnone i hi hdownload

theorem flag_of_overlaps (hsame : s.SameTorrent s') {i : Nat}
    (hoverlaps : s.metaInfo.info.Overlaps i p) (hflag : s'.flag i ≠ some false) :
    s'.flag i = some true := by
  obtain ⟨file, hfile, -⟩ := hoverlaps
  have hi : i < s'.metaInfo.info.files.length := by
    rw [hsame.files_length]
    exact (List.getElem?_eq_some_iff.mp hfile).1
  unfold flag at hflag ⊢
  rw [getElem?_eq_getElem hi, Option.map_some] at hflag ⊢
  simpa using hflag

theorem preallocateFiles_not_skipped (h : H.preallocateFiles true s disk = some (s', maps, disk'))
    (hc : s.metaInfo.info.Tiled) (hnum : s.numPieces = s.metaInfo.info.numPieces)
    (hlen : s.pieceStatus.length = s.numPieces) (hp : p < s.numPieces) :
    s'.pieceStatus[p]? ≠ some .skipped := by
  rw [Ne, preallocateFiles_skipped_iff h hc hnum hlen hp]
  intro hnone
  obtain ⟨i, hi⟩ := exists_overlaps hc (hnum ▸ hp)
  have hflag := flag_of_overlaps (preallocateFiles_same h) hi (preallocateFiles_approved h i)
  exact hnone i hi hflag

end Start

/-! ## Selections -/

/-- The marked files are the selected ones, and a piece is skipped exactly when every file that
    overlaps it was left out. -/
structure Honoured (info : TorrentInfo) (fileSelection : List Bool) (s : SessionState)
    (session : TorrentSession) : Prop where
  files : s.metaInfo.info.files.map (·.download) = fileSelection
  pieces : ∀ p < info.numPieces, session.pieceStatus[p]? = some .skipped ↔
    ∀ i, info.Overlaps i p → fileSelection[i]? = some false

theorem ofTorrent_pieces {sha1 : Bytes → Bytes} {path : String} {file : Option Bytes}
    {s : SessionState} (h : ofTorrent sha1 path file = .ok s) :
    s.numPieces = s.metaInfo.info.numPieces ∧ s.pieceStatus.length = s.numPieces := by
  unfold ofTorrent at h
  split at h
  · exact nomatch h
  · exact nomatch h
  · split at h
    · exact nomatch h
    · rw [← Except.ok.inj h]
      exact ⟨rfl, length_replicate⟩

theorem init_parts {H : Host} {sha1 : Bytes → Bytes} {autoApproveAll : Bool} {s s' : SessionState}
    {disk : Nat → Option Bytes} {session : TorrentSession} (hpos : s.numPieces ≠ 0)
    (h : H.init sha1 autoApproveAll s disk none = some (s', session)) :
    ∃ maps disk', H.preallocateFiles autoApproveAll s disk = some (s', maps, disk') ∧
      session.pieceStatus = s'.pieceStatus := by
  unfold Host.init at h
  rw [if_neg hpos] at h
  obtain ⟨⟨s₁, maps, disk'⟩, hpre, h₁⟩ := bind_eq_some_iff.mp h
  obtain ⟨session', hsession, h₂⟩ := bind_eq_some_iff.mp h₁
  obtain ⟨rfl, rfl⟩ := Prod.mk.inj (some.inj h₂)
  refine ⟨maps, disk', hpre, ?_⟩
  rw [← some.inj hsession]

/-- A session whose start succeeded downloads what was selected exactly when all files were. -/
theorem selection_honoured_iff (sha1 : Bytes → Bytes) (path : String) (file : Option Bytes)
    (fileSelection : List Bool) (H : Host) (disk : Nat → Option Bytes) (s₀ s₁ s₂ : SessionState)
    (session : TorrentSession) (hload : ofTorrent sha1 path file = .ok s₀)
    (hc : s₀.metaInfo.info.Tiled) (hlen : fileSelection.length = s₀.metaInfo.info.files.length)
    (hadd : addTorrent sha1 path file fileSelection = .ok s₁)
    (hinit : H.init sha1 true s₁ disk none = some (s₂, session)) :
    Honoured s₀.metaInfo.info fileSelection s₂ session ↔
      ∀ selected ∈ fileSelection, selected = true := by
  obtain ⟨hnum, hstatus⟩ := ofTorrent_pieces hload
  have hsame := addTorrent_same hload hadd
  have hpos : s₁.numPieces ≠ 0 := by
    rw [hsame.numPieces, hnum]
    exact Nat.ne_of_gt hc.numPieces_pos
  obtain ⟨maps, disk', hpre, hsession⟩ := init_parts hpos hinit
  have hsame' := preallocateFiles_same hpre
  -- whatever was selected, all files are downloaded now
  have hflags := preallocateFiles_approved hpre
  have hdownload : ∀ val ∈ s₂.metaInfo.info.files.map (·.download), val = true := by
    intro val hval
    obtain ⟨i, hi⟩ := mem_iff_getElem?.mp hval
    rw [getElem?_map] at hi
    have hne : s₂.flag i ≠ some false := hflags i
    unfold flag at hne
    rw [hi] at hne
    simpa using hne
  -- and no piece is skipped
  have hneeded : ∀ p < s₀.metaInfo.info.numPieces, session.pieceStatus[p]? ≠ some .skipped := by
    intro p hp
    rw [hsession]
    refine preallocateFiles_not_skipped hpre (tiled_of_allFiles hsame.info hc) ?_ ?_ ?_
    · rw [hsame.numPieces, hnum, hsame.info_numPieces]
    · rw [hsame.length, hstatus, hsame.numPieces]
    · rw [hsame.numPieces, hnum]
      exact hp
  constructor
  · intro hhonoured selected hselected
    rw [← hhonoured.files] at hselected
    exact hdownload selected hselected
  · intro hall
    have hfiles : s₂.metaInfo.info.files.map (·.download) = fileSelection := by
      rw [eq_replicate_of_mem hdownload, eq_replicate_of_mem hall, length_map, hlen,
        hsame'.files_length, hsame.files_length]
    refine ⟨hfiles, fun p hp => ⟨fun hskipped => absurd hskipped (hneeded p hp), fun hnone => ?_⟩⟩
    obtain ⟨i, hi⟩ := exists_overlaps hc hp
    have hfalse := hall false (mem_of_getElem? (hnone i hi))
    cases hfalse

/-! ## A torrent with two files -/

def twoFileInfo : Bytes :=
  Bytes.ascii "d5:filesld6:lengthi1e4:pathl1:beed6:lengthi1e4:pathl1:ceee4:name1:a" ++
    Bytes.ascii "12:piece lengthi1e6:pieces40:" ++ replicate 40 120 ++ Bytes.ascii "e"

def twoFileTorrent : Bytes :=
  Bytes.ascii "d8:announce1:u4:info" ++ twoFileInfo ++ Bytes.ascii "e"

/-- The session that is made of it, when some files and pieces are wanted. -/
def twoFileState (download₁ download₂ : Bool) (pieceStatus : List PieceStatus) : SessionState where
  metaInfo :=
    { info :=
        { name := Bytes.ascii "a"
          totalSize := 2
          pieceSize := 1
          pieces := replicate 40 120
          files := [⟨⟨Bytes.ascii "b"⟩, 1, download₁⟩, ⟨⟨Bytes.ascii "c"⟩, 1, download₂⟩] }
      infoHashBytes := replicate 20 0
      infoBencoded := twoFileInfo }
  trackerTiers := [[Bytes.ascii "u"]]
  numPieces := 2
  pieceStatus := pieceStatus

def zeroHash : Bytes → Bytes := fun _ => replicate 20 0

def freshHost : Host where
  savePath := ⟨Bytes.ascii "s"⟩
  resolve := fun path => if path.native = Bytes.ascii "s/a/b" then 0 else 1
  outcome := fun _ => .success
  createDirectories := fun _ => true
  allocate := fun _ _ => true
  asyncPrompt := fun _ => none

theorem ofTorrent_twoFiles : ofTorrent zeroHash "t" (some twoFileTorrent) =
    .ok (twoFileState true true [.needed, .needed]) := by
  decide +kernel

theorem tiled_twoFiles : (twoFileState true true [.needed, .needed]).metaInfo.info.Tiled := by
  constructor <;> decide

theorem selection_honoured_both :
    ∃ s₂ session, freshHost.init zeroHash true (twoFileState true true [.needed, .needed])
        (fun _ => none) none = some (s₂, session) ∧
      Honoured (twoFileState true true [.needed, .needed]).metaInfo.info
        [true, true] s₂ session := by
  have hadd : addTorrent zeroHash "t" (some twoFileTorrent) [true, true] =
      .ok (twoFileState true true [.needed, .needed]) := by decide +kernel
  have hsome : (freshHost.init zeroHash true (twoFileState true true [.needed, .needed])
      (fun _ => none) none).isSome = true := by decide +kernel
  obtain ⟨⟨s₂, session⟩, hinit⟩ := isSome_iff_exists.mp hsome
  exact ⟨s₂, session, hinit, (selection_honoured_iff zeroHash "t" (some twoFileTorrent) [true, true]
    freshHost (fun _ => none) _ _ s₂ session ofTorrent_twoFiles tiled_twoFiles rfl hadd hinit).mpr
    (by decide)⟩

/-- The second file is not selected. -/
theorem selection_forgotten :
    addTorrent zeroHash "t" (some twoFileTorrent) [true, false] =
        .ok (twoFileState true false [.needed, .skipped]) ∧
      ∃ s₂ session, freshHost.init zeroHash true (twoFileState true false [.needed, .skipped])
          (fun _ => none) none = some (s₂, session) ∧
        s₂.metaInfo.info.files.map (·.download) = [true, true] ∧
        session.pieceStatus = [.needed, .needed] ∧
        ¬ Honoured (twoFileState true true [.needed, .needed]).metaInfo.info [true, false]
          s₂ session := by
  have hstart : (freshHost.init zeroHash true (twoFileState true false [.needed, .skipped])
      (fun _ => none) none).map (fun (s, session) =>
        (s.metaInfo.info.files.map (·.download), session.pieceStatus)) =
      some ([true, true], [.needed, .needed]) := by decide +kernel
  obtain ⟨⟨s₂, session⟩, hinit, heq⟩ := map_eq_some_iff.mp hstart
  obtain ⟨hfiles, hpieces⟩ := Prod.mk.inj heq
  refine ⟨by decide +kernel, s₂, session, hinit, hfiles, hpieces, ?_⟩
  intro hhonoured
  exact absurd (hfiles.symm.trans hhonoured.files) (by decide)

end P2P
