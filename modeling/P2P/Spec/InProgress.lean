import P2P.Spec.CompletedPieces

/-!
# Pieces in progress and their entries

The status of a piece and the map of pieces in progress are written together, but `verify_pieces`
writes the status alone: a restored piece is needed then and keeps its entry
(`restored_not_inProgress`).
-/

namespace P2P

/-- Nothing is started while `verify_pieces` runs, nor while the piece is announced. -/
def OrderlyStep (r : PieceRun) : PieceStep → Prop
  | .peersFound i _ => ¬ r.Verifying ∧ ∀ piece ∈ r.startingAt i, .announcing piece ∉ r.tasks
  | _ => True

instance (r : PieceRun) : (st : PieceStep) → Decidable (OrderlyStep r st) := by
  intro st
  induction st using PieceStep.casesOn <;> dsimp only [OrderlyStep] <;> infer_instance

theorem PieceRun.mem_announced {r : PieceRun} {p : Nat} :
    p ∈ r.board.announced ↔ .announcing p ∈ r.tasks := by
  constructor
  · intro hp
    obtain ⟨t, ht, hpiece⟩ := mem_tasksOf.mp hp
    cases t with
    | announcing q => exact Option.some.inj hpiece ▸ ht
    | _ => cases hpiece
  · intro ht
    exact mem_tasksOf.mpr ⟨_, ht, rfl⟩

theorem OrderlyStep.orderly (r : PieceRun) (st : PieceStep) (ev : PieceEvent)
    (h : OrderlyStep r st) (hyields : st.Yields r ev) : r.board.Orderly ev := by
  cases ev with
  | start p =>
    obtain ⟨i, primary, rfl, ht⟩ := hyields.start p rfl
    refine ⟨PieceRun.board_verifying.mpr h.1, fun hp => ?_⟩
    refine h.2 p ?_ (PieceRun.mem_announced.mp hp)
    unfold PieceRun.startingAt
    rw [ht]
    rfl
  | _ => trivial

/-- In every run with orderly steps, without resume data or with such that list no piece in
    progress: a piece is in progress exactly when it has an entry, unless its `Have` messages are
    being sent. -/
theorem inProgress_iff_entry (E : Env) (sha1 : Bytes → Bytes) (s : TorrentSession) (hs : s.Fresh)
    (resume : Option TorrentSession.ResumeData)
    (hresume : ∀ data ∈ resume, data.inProgressPieces = []) (steps : List PieceStep)
    (horderly : StepsMeet (PieceStep.step E sha1) OrderlyStep steps (PieceRun.start E s resume))
    (r : PieceRun) (hrun : PieceStep.run E sha1 steps (PieceRun.start E s resume) = some r)
    (p : Nat) (hp : .announcing p ∉ r.tasks) :
    r.session.pieceStatus[p]? = some .inProgress ↔
      (r.session.inProgressPieces.get? p).isSome = true := by
  have hmatched : r.board.Matched := run_board OrderlyStep.orderly
    (fun _ _ _ hmove horderly hb => hmove.matched horderly hb) hs (start_matched hs resume hresume)
    horderly hrun
  have hentry : r.session.pieceStatus[p]? = some .inProgress ↔
      ((r.session.inProgressPieces.get? p).map InProgressPiece.isFull).isSome = true :=
    hmatched.entry_iff p (fun h => hp (PieceRun.mem_announced.mp h))
  rw [hentry, Option.isSome_map]

theorem inProgress_iff_entry_two_bytes :
    ∃ r, twoBytesRun [.tryPieceDownload 0, .peersFound 0 [2]] = some r ∧
      (r.session.pieceStatus[0]? = some .inProgress ↔
        (r.session.inProgressPieces.get? 0).isSome = true) ∧
      r.session.pieceStatus = [.inProgress] := by
  have hstate : ((twoBytesRun [.tryPieceDownload 0, .peersFound 0 [2]]).map
      fun r => (r.tasks, r.session.pieceStatus)) = some ([], [.inProgress]) := by decide +kernel
  obtain ⟨r, hrun, hr⟩ := Option.map_eq_some_iff.mp hstate
  obtain ⟨htasks, hstatus⟩ := Prod.mk.inj hr
  refine ⟨r, hrun, ?_, hstatus⟩
  exact inProgress_iff_entry _ (hashOf [1, 2]) twoBytesMissing twoBytesMissing_fresh none nofun _
    (by decide +kernel) r hrun 0 (htasks ▸ List.not_mem_nil)

def twoBlocksMissing : TorrentSession where
  pieceStatus := [.needed]
  manager := .start fun _ => some (List.replicate 16385 0)

/-- The resume data restore the first block of the piece, and then the piece is verified. -/
theorem restored_not_inProgress :
    twoBlocksMissing.Fresh ∧
    ((PieceStep.run twoBlockEnv (hashOf twoBlockPiece) [.pieceVerified 0]
        (.start twoBlockEnv twoBlocksMissing (some firstBlockReceived))).map fun r =>
      (r.tasks, r.session.pieceStatus, (r.session.inProgressPieces.get? 0).isSome)) =
        some ([], [.needed], true) ∧
    ((twoBytesRun
        [.tryPieceDownload 0, .tryPieceDownload 0, .peersFound 0 [2],
          .pieceBlock ⟨[2], [2]⟩ 0 0 [1, 2], .hashPiece 1, .pieceWritten 1, .peersFound 0 [2],
          .haveSent 0]).map fun r =>
      (r.tasks, r.session.pieceStatus, (r.session.inProgressPieces.get? 0).isSome)) =
        some ([], [.inProgress], false) := by
  refine ⟨⟨fun status hmem => .inl (List.mem_singleton.mp hmem), rfl, rfl, rfl⟩, ?_, ?_⟩
  · decide +kernel
  · decide +kernel

end P2P
