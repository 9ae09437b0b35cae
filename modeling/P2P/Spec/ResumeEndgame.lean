import P2P.Spec.ResumeRestore

/-!
# The endgame after a restart

`load_session_state` is to switch the endgame on when every piece that is still missing has been
started.
-/

namespace P2P.TorrentSession

variable {E : Env} {s : TorrentSession}

theorem loadSessionState_endgame_off (data : ResumeData) (hoff : s.isInEndgameMode = false)
    (hempty : s.inProgressPieces = OrdMap.empty) :
    (s.loadSessionState E data).isInEndgameMode = false := by
  unfold loadSessionState
  split
  · exact hoff
  · dsimp only
    split
    · next h =>
      -- a piece with an entry is not needed
      obtain ⟨⟨p, e⟩, hmem⟩ := List.exists_mem_of_ne_nil _ (mt List.isEmpty_iff.mpr h.2)
      have hget := (OrdMap.mem_entries _).mp hmem
      rcases resumePieces_restored (E := E) (p := p) data.inProgressPieces
        (s.afterFiles E data) with ⟨-, hstatus, -⟩ | ⟨-, -, hsame⟩
      · have hall := List.count_eq_length.mp h.1 _ (List.mem_of_getElem? hstatus)
        cases hall
      · have hnone : (s.afterFiles E data).inProgressPieces.get? p = none := by
          show s.inProgressPieces.get? p = none
          rw [hempty]
          rfl
        exact nomatch hget.symm.trans (hsame.trans hnone)
    · obtain ⟨status, pieces, -, hfold⟩ := resumePieces_frame (E := E) data.inProgressPieces
        (s.afterFiles E data)
      exact (congrArg isInEndgameMode hfold).trans hoff

/-- Some piece is missing, and the resume data has an entry for each that is. -/
def AllStarted (E : Env) (s : TorrentSession) (data : ResumeData) : Prop :=
  (∃ p < s.numPieces, s.Missing E data p) ∧ ∀ p < s.numPieces, s.Missing E data p →
    ∃ entry ∈ data.inProgressPieces, Restores E s.numPieces p entry

theorem allStarted_iff {data : ResumeData}
    (hlen : data.haveBitfield.length = (s.numPieces + 7) / 8) :
    s.AllStarted E data ↔ .needed ∉ (s.loadSessionState E data).pieceStatus ∧
      .inProgress ∈ (s.loadSessionState E data).pieceStatus := by
  have hpiece := fun p => loadSessionState_restored (E := E) (p := p) hlen
  simp only [Restored, afterFiles_numPieces] at hpiece
  rw [List.mem_iff_getElem?, List.mem_iff_getElem?]
  constructor
  · rintro ⟨⟨p, hp, hmissing⟩, hall⟩
    constructor
    · rintro ⟨q, hq⟩
      rcases hpiece q with ⟨-, hstatus, -⟩ | ⟨hnone, hstatus, -⟩
      · cases hq.symm.trans hstatus
      · have hneeded := hstatus.symm.trans hq
        obtain ⟨hlt, hmissing'⟩ := afterFiles_needed.mp hneeded
        obtain ⟨entry, hentry, hrestores⟩ := hall q hlt hmissing'
        exact hnone hneeded entry hentry hrestores
    · rcases hpiece p with ⟨-, hstatus, -⟩ | ⟨hnone, -⟩
      · exact ⟨p, hstatus⟩
      · obtain ⟨entry, hentry, hrestores⟩ := hall p hp hmissing
        exact absurd hrestores (hnone (afterFiles_needed.mpr ⟨hp, hmissing⟩) entry hentry)
  · rintro ⟨hnone, p, hp⟩
    have hstarted : ∀ q < s.numPieces, s.Missing E data q →
        ∃ entry ∈ data.inProgressPieces, Restores E s.numPieces q entry := by
      intro q hq hmissing
      rcases hpiece q with ⟨-, -, entry, hentry, hrestores, -⟩ | ⟨-, hstatus, -⟩
      · exact ⟨entry, hentry, hrestores⟩
      · exact absurd ⟨q, hstatus.trans (afterFiles_needed.mpr ⟨hq, hmissing⟩)⟩ hnone
    refine ⟨?_, hstarted⟩
    rcases hpiece p with ⟨hneeded, -⟩ | ⟨-, hstatus, -⟩
    · exact ⟨p, afterFiles_needed.mp hneeded⟩
    · rcases afterFiles_cases (hstatus.symm.trans hp) with h | h | ⟨h, -⟩ <;> cases h

/-- Accepted resume data switch the endgame on as they should, exactly if they do not start every
    piece that is missing: it is always off afterwards. -/
theorem endgame_after_resume (s : TorrentSession) (data : ResumeData)
    (hempty : s.inProgressPieces = OrdMap.empty) (hoff : s.isInEndgameMode = false)
    (haccepted : data.haveBitfield.length = (s.numPieces + 7) / 8) :
    ((s.loadSessionState E data).isInEndgameMode = true ↔
      .needed ∉ (s.loadSessionState E data).pieceStatus ∧
        .inProgress ∈ (s.loadSessionState E data).pieceStatus) ↔ ¬ s.AllStarted E data := by
  rw [loadSessionState_endgame_off data hoff hempty, allStarted_iff haccepted]
  simp

def twoPieceEnv : Env :=
  { twoBlockEnv with
    info := {
      totalSize := 32770
      pieceSize := 16385
      pieces := List.replicate 40 0
      files := [{ path := PosixPath.empty, size := 32770 }] } }

/-- One of two pieces is in progress. -/
theorem endgame_after_resume_first :
    let s := { twoBlocksMissing with pieceStatus := [.needed, .needed] }
    (s.loadSessionState twoPieceEnv firstBlockReceived).pieceStatus = [.inProgress, .needed] ∧
      ((s.loadSessionState twoPieceEnv firstBlockReceived).isInEndgameMode = true ↔
        .needed ∉ (s.loadSessionState twoPieceEnv firstBlockReceived).pieceStatus ∧
          .inProgress ∈ (s.loadSessionState twoPieceEnv firstBlockReceived).pieceStatus) := by
  refine ⟨by decide +kernel, (endgame_after_resume _ _ rfl rfl rfl).mpr ?_⟩
  -- the second has no entry
  rintro ⟨-, hall⟩
  obtain ⟨entry, hentry, hkey, -⟩ := hall 1 (by decide) (Eq.mpr (if_neg (by decide)) (by decide))
  rw [List.mem_singleton.mp hentry] at hkey
  cases hkey

/-- The only piece is restored and in progress, but the endgame stays off. -/
theorem endgame_off_after_resume :
    (twoBlocksMissing.loadSessionState twoBlockEnv firstBlockReceived).pieceStatus =
        [.inProgress] ∧
      (twoBlocksMissing.loadSessionState twoBlockEnv
        firstBlockReceived).isInEndgameMode = false := by
  decide +kernel

end P2P.TorrentSession
