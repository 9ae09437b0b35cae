import P2P.Spec.InProgress

/-!
# The end of a download

The counter of completed pieces is compared with the number of all pieces.
-/

namespace P2P

def TorrentSession.AllDone (s : TorrentSession) : Prop :=
  ∀ status ∈ s.pieceStatus, status = .have_ ∨ status = .skipped

instance (s : TorrentSession) : Decidable s.AllDone :=
  inferInstanceAs (Decidable (∀ status ∈ s.pieceStatus, status = .have_ ∨ status = .skipped))

theorem PieceBoard.Finished.completed_iff {b : PieceBoard} (hb : b.Finished)
    (hidle : b.verifying = 0) :
    b.completed = b.status.length ↔ ∀ status ∈ b.status, status = .have_ ∨ status = .skipped := by
  rw [hb.count hidle, List.count_eq_length]
  constructor
  · intro hall status hmem
    exact .inl (hall status hmem).symm
  · intro hall status hmem
    refine ((hall status hmem).resolve_right fun hskipped => ?_).symm
    exact hb.unskipped (hskipped ▸ hmem)

/-- In every run with careful steps and without skipped pieces, the download is complete exactly
    when no piece is left, unless `Have` messages are being sent or a verification runs. -/
theorem isDownloadComplete_iff (E : Env) (sha1 : Bytes → Bytes) (s : TorrentSession)
    (hs : s.Fresh) (hpos : 0 < s.numPieces) (hskip : PieceStatus.skipped ∉ s.pieceStatus)
    (resume : Option TorrentSession.ResumeData) (steps : List PieceStep)
    (hcareful : StepsMeet (PieceStep.step E sha1) CarefulStep steps (PieceRun.start E s resume))
    (r : PieceRun) (hrun : PieceStep.run E sha1 steps (PieceRun.start E s resume) = some r) :
    (r.session.isDownloadComplete = true → r.session.AllDone) ∧
      (¬ r.Verifying → (∀ p, .announcing p ∉ r.tasks) →
        (r.session.isDownloadComplete = true ↔ r.session.AllDone)) := by
  have hfinished : r.board.Finished := run_board CarefulStep.careful
    (fun _ _ _ hmove hcareful hb => hmove.finished hcareful hb) hs
    (start_finished hs hpos hskip resume) hcareful hrun
  have hdone : r.session.isDownloadComplete = true → r.session.AllDone := by
    intro hcomplete
    obtain ⟨hidle, hall⟩ := hfinished.all_of_complete hcomplete
    exact (hfinished.completed_iff hidle).mp hall
  refine ⟨hdone, fun hverifying hannounced => ⟨hdone, fun hall => ?_⟩⟩
  -- the other direction needs that nobody is about to set the flag
  have hidle := PieceRun.board_verifying.mpr hverifying
  have hquiet : r.board.announced = 0 := by
    rw [Multiset.eq_zero_iff_forall_notMem]
    intro p hp
    exact hannounced p (PieceRun.mem_announced.mp hp)
  exact hfinished.complete_of_all hidle hquiet ((hfinished.completed_iff hidle).mpr hall)

theorem isDownloadComplete_two_bytes :
    ∃ r, twoBytesRun twoBytesArrive = some r ∧
      r.session.isDownloadComplete = true ∧ r.session.AllDone := by
  have hstate : ((twoBytesRun twoBytesArrive).map
      fun r => (r.tasks, r.session.isDownloadComplete)) = some ([], true) := by decide +kernel
  obtain ⟨r, hrun, hr⟩ := Option.map_eq_some_iff.mp hstate
  obtain ⟨htasks, hcomplete⟩ := Prod.mk.inj hr
  refine ⟨r, hrun, hcomplete, ?_⟩
  have hiff := (isDownloadComplete_iff _ (hashOf [1, 2]) twoBytesMissing twoBytesMissing_fresh
    (by decide) (by decide) none twoBytesArrive (by decide +kernel) r hrun).2
    (PieceRun.not_verifying htasks) (fun p => htasks ▸ List.not_mem_nil)
  exact hiff.mp hcomplete

def sameHash : Bytes → Bytes := fun _ => List.replicate 20 120

def surplusTorrent : Bytes :=
  Bytes.ascii "d8:announce1:u4:infod6:lengthi1e4:name1:a12:piece lengthi1e6:pieces40:" ++
    List.replicate 40 120 ++ Bytes.ascii "ee"

def firstOnly : Host := { freshHost with asyncPrompt := fun i => some (if i = 0 then 1 else 2) }

/-- A run of the session for a torrent file, after `preallocate_files`. -/
def torrentRun (H : Host) (autoApproveAll : Bool) (file : Bytes)
    (resume : Option TorrentSession.ResumeData) (steps : List PieceStep) : Option PieceRun :=
  match SessionState.ofTorrent sameHash "t" (some file) with
  | .error _ => none
  | .ok s =>
    (H.preallocateFiles autoApproveAll s fun _ => none).bind fun (s, maps, disk) =>
      PieceStep.run (H.env s.metaInfo.info maps) sameHash steps
        (.start (H.env s.metaInfo.info maps)
          { pieceStatus := s.pieceStatus, manager := .start disk } resume)

def firstArrives : List PieceStep :=
  [.tryPieceDownload 0, .peersFound 0 [2], .pieceBlock ⟨[2], [2]⟩ 0 0 [1], .hashPiece 0,
    .pieceWritten 0, .haveSent 0]

/-- A piece without a file is skipped, as is the piece of a file that the user does not want. -/
theorem skipped_never_complete :
    ((torrentRun freshHost true surplusTorrent none firstArrives).map fun r =>
      (r.tasks, r.session.pieceStatus, decide r.session.AllDone, r.session.isDownloadComplete)) =
        some ([], [.have_, .skipped], true, false) ∧
    ((torrentRun freshHost true surplusTorrent (some ⟨[128], [], []⟩) [.pieceVerified 0]).map
      fun r =>
        (r.tasks, r.session.pieceStatus, decide r.session.AllDone, r.session.isDownloadComplete)) =
        some ([], [.have_, .skipped], true, false) ∧
    ((torrentRun firstOnly false twoFileTorrent none firstArrives).map fun r =>
      (r.tasks, r.session.pieceStatus, decide r.session.AllDone, r.session.isDownloadComplete)) =
        some ([], [.have_, .skipped], true, false) := by
  exact ⟨by decide +kernel, by decide +kernel, by decide +kernel⟩

end P2P
