import P2P.Native.TorrentSession

/-!
# Loading resume data

What `load_session_state` makes of each piece, by the bitfield, the files on the disk and the
entries of the pieces in progress.
-/

namespace P2P.TorrentSession

open List

variable {E : Env} {s : TorrentSession} {data : ResumeData} {p : Nat}

/-! ## The bitfield and the files -/

/-- Under the condition the piece is not there any more; the others stay as they are. -/
def Invalidated (C : Prop) (p : Nat) (old new : List PieceStatus) : Prop :=
  new.length = old.length ∧ (C → old[p]? = some .have_ → new[p]? = some .needed) ∧
    (¬ (C ∧ old[p]? = some .have_) → new[p]? = old[p]?)

theorem Invalidated.refl {C : Prop} {status : List PieceStatus} (h : ¬ C) :
    Invalidated C p status status :=
  ⟨rfl, fun hC => absurd hC h, fun _ => rfl⟩

theorem invalidated_foldl {β : Type*} {f : List PieceStatus → β → List PieceStatus}
    {C : β → Prop} (hf : ∀ status x, Invalidated (C x) p status (f status x)) (l : List β)
    (status : List PieceStatus) : Invalidated (∃ x ∈ l, C x) p status (l.foldl f status) := by
  induction l generalizing status with
  | nil => exact .refl (by simp)
  | cons x l ih =>
    obtain ⟨hlen, hyes, hno⟩ := hf status x
    obtain ⟨hlen', ihyes, ihno⟩ := ih (f status x)
    rw [exists_mem_cons_iff]
    refine ⟨hlen'.trans hlen, ?_⟩
    rw [foldl_cons]
    by_cases hx : C x ∧ status[p]? = some .have_
    · -- the piece is needed from here on
      have hneeded := hyes hx.1 hx.2
      have hstay := ihno fun h => nomatch hneeded.symm.trans h.2
      exact ⟨fun _ _ => hstay.trans hneeded, fun h => absurd ⟨.inl hx.1, hx.2⟩ h⟩
    · rw [hno hx] at ihyes ihno
      refine ⟨fun hC hhave => ihyes (hC.resolve_left fun h => hx ⟨h, hhave⟩) hhave,
        fun h => ihno ?_⟩
      exact fun hl => h ⟨.inr hl.1, hl.2⟩

theorem invalidateFile_invalidated (status : List PieceStatus) (pieces : List Nat) :
    Invalidated (∃ x ∈ pieces, x = p) p status (invalidateFile status pieces) := by
  refine invalidated_foldl (fun status piece => ?_) pieces status
  unfold Invalidated
  grind

/-- The resume data has file times and a file with bytes of the piece is not on the disk. -/
def FileGone (E : Env) (s : TorrentSession) (data : ResumeData) (p : Nat) : Prop :=
  data.fileMtimes ≠ [] ∧ ∃ file ∈ E.info.files.zip E.maps.fileToPieces,
    p ∈ file.2 ∧ s.manager.disk (E.resolve (E.getFullPathForFile file.1)) = none

theorem invalidateFiles_invalidated (s : TorrentSession) (data : ResumeData)
    (status : List PieceStatus) :
    Invalidated (s.FileGone E data p) p status (s.invalidateFiles E data status) := by
  unfold invalidateFiles FileGone
  split
  · next h => exact .refl fun hC => hC.1 (List.isEmpty_iff.mp h)
  · next h =>
    rw [List.isEmpty_iff] at h
    simp only [Ne, h, not_false_eq_true, true_and]
    refine invalidated_foldl (fun status file => ?_) _ status
    have hfile := invalidateFile_invalidated (p := p) status file.2
    split
    · next hnone => simpa [Option.isNone_iff_eq_none.mp hnone] using hfile
    · next hsome => exact .refl fun hC => hsome (Option.isNone_iff_eq_none.mpr hC.2)

/-- The session before the entries of the pieces in progress are read. -/
def afterFiles (E : Env) (s : TorrentSession) (data : ResumeData) : TorrentSession :=
  let status := s.invalidateFiles E data (s.pieceStatus.mapIdx (haveStatus data.haveBitfield))
  { s with pieceStatus := status, completedPieces := status.count .have_ }

theorem afterFiles_numPieces : (s.afterFiles E data).numPieces = s.numPieces :=
  (invalidateFiles_invalidated (p := 0) s data _).1.trans length_mapIdx

/-- The pieces that are missing by the bitfield and the files. -/
def Missing (E : Env) (s : TorrentSession) (data : ResumeData) (p : Nat) : Prop :=
  if (data.haveBitfield.getD (p / 8) 0).toNat.testBit (7 - p % 8) then s.FileGone E data p
  else s.pieceStatus[p]? ≠ some .skipped

open scoped Classical in
theorem afterFiles_status (hp : p < s.numPieces) :
    (s.afterFiles E data).pieceStatus[p]? = some (if s.Missing E data p then .needed
      else if (data.haveBitfield.getD (p / 8) 0).toNat.testBit (7 - p % 8) then .have_
      else .skipped) := by
  obtain ⟨-, hgone, hkept⟩ := invalidateFiles_invalidated (E := E) (p := p) s data
    (s.pieceStatus.mapIdx (haveStatus data.haveBitfield))
  unfold afterFiles Missing
  rw [getElem?_mapIdx, getElem?_eq_getElem hp] at hgone hkept
  rw [getElem?_eq_getElem hp]
  generalize (s.invalidateFiles E data _)[p]? = new at hgone hkept ⊢
  simp only [Option.map_some, haveStatus] at hgone hkept
  by_cases hbit : (data.haveBitfield.getD (p / 8) 0).toNat.testBit (7 - p % 8)
  · by_cases hfile : s.FileGone E data p
    · simp_all
    · simp_all
  · by_cases hskip : s.pieceStatus[p] = .skipped
    · simp_all
    · simp_all

theorem afterFiles_cases {status : PieceStatus}
    (h : (s.afterFiles E data).pieceStatus[p]? = some status) :
    status = .needed ∨ status = .have_ ∨ status = .skipped ∧ s.pieceStatus[p]? = some .skipped := by
  classical
  have hlt : p < s.numPieces := afterFiles_numPieces (E := E) ▸ (List.getElem?_eq_some_iff.mp h).1
  rw [afterFiles_status hlt, Option.some_inj] at h
  subst h
  unfold Missing
  split_ifs <;> simp_all

theorem afterFiles_needed : (s.afterFiles E data).pieceStatus[p]? = some .needed ↔
    p < s.numPieces ∧ s.Missing E data p := by
  classical
  by_cases hp : p < s.numPieces
  · rw [afterFiles_status hp, Option.some_inj]
    split_ifs <;> simp_all
  · have hout : (s.afterFiles E data).pieceStatus.length ≤ p :=
      afterFiles_numPieces.le.trans (Nat.le_of_not_lt hp)
    simp [getElem?_eq_none hout, hp]

/-! ## The pieces in progress -/

/-- An entry for the piece, with a bitfield that does not have all of its blocks. -/
def Restores (E : Env) (numPieces p : Nat) (entry : Bytes × Bytes) : Prop :=
  stoul entry.1 = some p ∧ entry.2 ≠ [] ∧
    (InProgressPiece.restore (E.info.pieceSizeOf numPieces p) entry.2).receivedCount ≠
      (InProgressPiece.restore (E.info.pieceSizeOf numPieces p) entry.2).totalBlocks

/-- A needed piece is restored from the first entry that there is for it. -/
def Restored (E : Env) (entries : List (Bytes × Bytes)) (p : Nat) (s t : TorrentSession) : Prop :=
  (s.pieceStatus[p]? = some .needed ∧ t.pieceStatus[p]? = some .inProgress ∧
    ∃ entry ∈ entries, Restores E s.numPieces p entry ∧
      (s.inProgressPieces.get? p = none → t.inProgressPieces.get? p =
        some (.restore (E.info.pieceSizeOf s.numPieces p) entry.2))) ∨
  ((s.pieceStatus[p]? = some .needed → ∀ entry ∈ entries, ¬ Restores E s.numPieces p entry) ∧
    t.pieceStatus[p]? = s.pieceStatus[p]? ∧
    t.inProgressPieces.get? p = s.inProgressPieces.get? p)

theorem resumePiece_cases (s : TorrentSession) (entry : Bytes × Bytes) :
    (∃ piece, s.pieceStatus[piece]? = some .needed ∧ Restores E s.numPieces piece entry ∧
      s.resumePiece E entry = { s with
        pieceStatus := s.pieceStatus.set piece .inProgress
        inProgressPieces := s.inProgressPieces.emplace piece
          (.restore (E.info.pieceSizeOf s.numPieces piece) entry.2) }) ∨
    (∀ p, s.pieceStatus[p]? = some .needed → ¬ Restores E s.numPieces p entry) ∧
      s.resumePiece E entry = s := by
  unfold resumePiece Restores
  cases stoul entry.1 with
  | none => exact .inr ⟨fun _ _ h => (nomatch h.1), rfl⟩
  | some piece =>
    simp only [Option.some_inj]
    split
    · next hout =>
      refine .inr ⟨?_, rfl⟩
      rintro p hneeded ⟨rfl, hbits, -⟩
      rcases hout with hstatus | hempty
      · exact hstatus hneeded
      · exact hbits (List.isEmpty_iff.mp hempty)
    · next hin =>
      obtain ⟨hneeded, hbits⟩ := not_or.mp hin
      split
      · next hfull =>
        refine .inr ⟨?_, rfl⟩
        rintro p - ⟨rfl, -, hmissing⟩
        exact hmissing hfull
      · next hmissing =>
        exact .inl ⟨piece, not_not.mp hneeded, ⟨rfl, mt List.isEmpty_iff.mpr hbits, hmissing⟩, rfl⟩

theorem resumePieces_frame (entries : List (Bytes × Bytes)) (s : TorrentSession) :
    ∃ status pieces, status.length = s.numPieces ∧ entries.foldl (resumePiece E) s =
      { s with pieceStatus := status, inProgressPieces := pieces } := by
  induction entries generalizing s with
  | nil => exact ⟨_, _, rfl, rfl⟩
  | cons entry entries ih =>
    obtain ⟨status, pieces, hlen, heq⟩ := ih (s.resumePiece E entry)
    rw [foldl_cons, heq]
    rcases resumePiece_cases (E := E) s entry with ⟨piece, -, -, hset⟩ | ⟨-, hsame⟩
    · rw [hset] at hlen ⊢
      exact ⟨_, _, hlen.trans length_set, rfl⟩
    · rw [hsame] at hlen ⊢
      exact ⟨_, _, hlen, rfl⟩

theorem resumePiece_restored (s : TorrentSession) (entry : Bytes × Bytes) :
    Restored E [entry] p s (s.resumePiece E entry) := by
  rcases resumePiece_cases (E := E) s entry with ⟨piece, hneeded, hentry, hset⟩ | ⟨hnone, hsame⟩
  · rw [hset]
    by_cases hp : p = piece
    · subst hp
      refine .inl ⟨hneeded, getElem?_set_self (List.getElem?_eq_some_iff.mp hneeded).1, entry,
        mem_singleton_self _, hentry, fun hnone => ?_⟩
      rw [OrdMap.get?_emplace, if_pos rfl, hnone, Option.getD_none]
    · refine .inr ⟨fun _ e he hR => hp ?_, getElem?_set_ne (Ne.symm hp), ?_⟩
      · rw [mem_singleton.mp he] at hR
        exact Option.some_inj.mp (hR.1.symm.trans hentry.1)
      · exact (OrdMap.get?_emplace ..).trans (if_neg hp)
  · rw [hsame]
    exact .inr ⟨fun h e he => mem_singleton.mp he ▸ hnone p h, rfl, rfl⟩

theorem resumePieces_restored (entries : List (Bytes × Bytes)) (s : TorrentSession) :
    Restored E entries p s (entries.foldl (resumePiece E) s) := by
  induction entries generalizing s with
  | nil => exact .inr ⟨fun _ _ he => absurd he not_mem_nil, rfl, rfl⟩
  | cons entry entries ih =>
    have hnum : (s.resumePiece E entry).numPieces = s.numPieces := by
      obtain ⟨status, pieces, hlen, heq⟩ := resumePieces_frame (E := E) [entry] s
      exact (congrArg numPieces heq).trans hlen
    rw [foldl_cons]
    rcases resumePiece_restored (E := E) (p := p) s entry with
      ⟨hneeded, hstatus, e, he, hR, hget⟩ | ⟨hnone, hstatus, hget⟩
    · -- the piece is in progress and later entries for it are skipped
      rcases ih (s.resumePiece E entry) with ⟨h, -⟩ | ⟨-, hstatus', hget'⟩
      · exact nomatch hstatus.symm.trans h
      · exact .inl ⟨hneeded, hstatus'.trans hstatus, e, mem_singleton.mp he ▸ mem_cons_self .., hR,
          fun hnone => hget'.trans (hget hnone)⟩
    · have hrest := ih (s.resumePiece E entry)
      unfold Restored at hrest ⊢
      rw [hnum, hstatus, hget] at hrest
      rcases hrest with ⟨hneeded, hstatus', e, he, hR⟩ | ⟨hnone', hsame⟩
      · exact .inl ⟨hneeded, hstatus', e, mem_cons_of_mem _ he, hR⟩
      · exact .inr ⟨fun h => forall_mem_cons.mpr
          ⟨hnone h entry (mem_singleton_self _), hnone' h⟩, hsame⟩

/-! ## The whole function -/

theorem loadSessionState_eq (hlen : data.haveBitfield.length = (s.numPieces + 7) / 8) :
    ∃ endgame, s.loadSessionState E data =
      { data.inProgressPieces.foldl (resumePiece E) (s.afterFiles E data) with
        isInEndgameMode := endgame } := by
  unfold loadSessionState
  rw [if_neg (not_not.mpr hlen)]
  dsimp only
  split
  · exact ⟨true, rfl⟩
  · exact ⟨_, rfl⟩

theorem loadSessionState_restored (hlen : data.haveBitfield.length = (s.numPieces + 7) / 8) :
    Restored E data.inProgressPieces p (s.afterFiles E data) (s.loadSessionState E data) := by
  obtain ⟨endgame, heq⟩ := loadSessionState_eq (E := E) hlen
  rw [heq]
  exact resumePieces_restored _ _

theorem loadSessionState_frame (s : TorrentSession) (data : ResumeData) :
    (s.loadSessionState E data).pieceStatus.length = s.numPieces ∧
      (s.loadSessionState E data).isDownloadComplete = s.isDownloadComplete ∧
      (s.loadSessionState E data).corruptReports = s.corruptReports := by
  by_cases hlen : data.haveBitfield.length = (s.numPieces + 7) / 8
  · obtain ⟨endgame, heq⟩ := loadSessionState_eq (E := E) hlen
    obtain ⟨status, pieces, hnum, hfold⟩ := resumePieces_frame (E := E) data.inProgressPieces
      (s.afterFiles E data)
    rw [heq, hfold]
    exact ⟨hnum.trans afterFiles_numPieces, rfl, rfl⟩
  · unfold loadSessionState
    rw [if_pos hlen]
    exact ⟨length_map .., rfl, rfl⟩

end P2P.TorrentSession
