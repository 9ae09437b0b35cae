import P2P.Spec.Blame
import P2P.Spec.DiskCache
import P2P.Spec.SessionStart

/-!
# The counter of completed pieces

`try_piece_download` looks at the status of a piece, waits, and sets the status without another
look.
-/

namespace P2P

namespace PieceRun

def Verifying (r : PieceRun) : Prop := ∃ t ∈ r.tasks, t.verification.isSome

instance (r : PieceRun) : Decidable r.Verifying :=
  inferInstanceAs (Decidable (∃ t ∈ r.tasks, t.verification.isSome))

def startingAt (r : PieceRun) (i : Nat) : Option Nat :=
  match r.tasks[i]? with
  | some (.starting piece) => some piece
  | _ => none

theorem board_verifying {r : PieceRun} : r.board.verifying = 0 ↔ ¬ r.Verifying := by
  rw [Multiset.eq_zero_iff_forall_notMem]
  constructor
  · intro hnone hverifying
    obtain ⟨t, ht, hsome⟩ := hverifying
    obtain ⟨x, hx⟩ := Option.isSome_iff_exists.mp hsome
    exact hnone x (mem_tasksOf.mpr ⟨t, ht, hx⟩)
  · intro hidle x hx
    obtain ⟨t, ht, hsome⟩ := mem_tasksOf.mp hx
    exact hidle ⟨t, ht, hsome ▸ rfl⟩

theorem not_verifying {r : PieceRun} (h : r.tasks = []) : ¬ r.Verifying := by
  rintro ⟨t, ht, -⟩
  rw [h] at ht
  cases ht

end PieceRun

/-- `try_piece_download` goes on only while its piece is missing; `verify_pieces` runs alone. -/
def CarefulStep (r : PieceRun) : PieceStep → Prop
  | .pieceVerified _ => True
  | .verifyFailed _ => False
  | .peersFound i _ =>
    ¬ r.Verifying ∧ ∀ piece ∈ r.startingAt i, r.session.pieceStatus[piece]? ≠ some .have_
  | _ => ¬ r.Verifying

instance (r : PieceRun) : (st : PieceStep) → Decidable (CarefulStep r st) := by
  intro st
  unfold CarefulStep
  split <;> infer_instance

theorem CarefulStep.careful (r : PieceRun) (st : PieceStep) (ev : PieceEvent)
    (h : CarefulStep r st) (hyields : st.Yields r ev) : r.board.Careful ev := by
  -- nothing but a verification takes place while one runs
  have hidle : ev ≠ .verified → r.board.verifying = 0 := by
    intro hother
    rw [PieceRun.board_verifying]
    cases st with
    | pieceVerified i => exact absurd (hyields.verified i rfl) hother
    | verifyFailed i => exact h.elim
    | peersFound i primary => exact h.1
    | _ => exact h
  cases ev with
  | idle => trivial
  | start p =>
    refine ⟨hidle nofun, ?_⟩
    -- the piece that is started is the one that the step says
    obtain ⟨i, primary, rfl, ht⟩ := hyields.start p rfl
    apply h.2
    unfold PieceRun.startingAt
    rw [ht]
    rfl
  | verified => trivial
  | unverified =>
    obtain ⟨i, rfl⟩ := hyields.unverified rfl
    exact h.elim
  | _ => exact hidle nofun

/-- In every run with careful steps, from resume data or without: the counter is the number of
    pieces that are there, unless a verification is in the middle of its count. -/
theorem completedPieces_eq_count (E : Env) (sha1 : Bytes → Bytes) (s : TorrentSession)
    (hs : s.Fresh) (resume : Option TorrentSession.ResumeData) (steps : List PieceStep)
    (hcareful : StepsMeet (PieceStep.step E sha1) CarefulStep steps (PieceRun.start E s resume))
    (r : PieceRun) (hrun : PieceStep.run E sha1 steps (PieceRun.start E s resume) = some r)
    (hidle : ¬ r.Verifying) :
    r.session.completedPieces = r.session.pieceStatus.count .have_ ∧
      r.session.completedPieces ≤ r.session.numPieces := by
  have hcounted : r.board.Counted := run_board CarefulStep.careful
    (fun _ _ _ hmove hcareful hb => hmove.counted hcareful hb) hs (start_counted hs resume) hcareful
    hrun
  have hcount : r.session.completedPieces = r.session.pieceStatus.count .have_ :=
    hcounted.count (PieceRun.board_verifying.mpr hidle)
  exact ⟨hcount, hcount ▸ List.count_le_length⟩

def twoBytesMissing : TorrentSession where
  pieceStatus := [.needed]
  manager := .start zeroDisk

theorem twoBytesMissing_fresh : twoBytesMissing.Fresh := by
  refine ⟨fun status hmem => ?_, rfl, rfl, rfl⟩
  exact .inl (List.mem_singleton.mp hmem)

def twoBytesArrive : List PieceStep :=
  [.tryPieceDownload 0, .peersFound 0 [2], .pieceBlock ⟨[2], [2]⟩ 0 0 [1, 2], .hashPiece 0,
    .pieceWritten 0, .haveSent 0]

abbrev twoBytesRun (steps : List PieceStep) : Option PieceRun :=
  PieceStep.run twoByteEnv (hashOf [1, 2]) steps (.start twoByteEnv twoBytesMissing none)

theorem completedPieces_eq_count_two_bytes :
    ∃ r, twoBytesRun twoBytesArrive = some r ∧
      r.session.completedPieces = r.session.pieceStatus.count .have_ ∧
      r.session.completedPieces ≤ r.session.numPieces := by
  have htasks : (twoBytesRun twoBytesArrive).map (·.tasks) = some [] := by decide +kernel
  obtain ⟨r, hrun, hnone⟩ := Option.map_eq_some_iff.mp htasks
  exact ⟨r, hrun, completedPieces_eq_count _ (hashOf [1, 2]) twoBytesMissing twoBytesMissing_fresh
    none twoBytesArrive (by decide +kernel) r hrun (PieceRun.not_verifying hnone)⟩

/-- Two calls of `try_piece_download` wait for the peers of the one piece. -/
theorem counter_runs_ahead :
    twoBytesMissing.Fresh ∧
    ((twoBytesRun
        [.tryPieceDownload 0, .tryPieceDownload 0, .peersFound 0 [2],
          .pieceBlock ⟨[2], [2]⟩ 0 0 [1, 2], .hashPiece 1, .pieceWritten 1,
            .peersFound 0 [2]]).map fun r =>
      (r.tasks, r.session.completedPieces, r.session.pieceStatus)) =
        some ([.announcing 0], 1, [.inProgress]) ∧
    ((twoBytesRun
        [.tryPieceDownload 0, .tryPieceDownload 0, .peersFound 0 [2],
          .pieceBlock ⟨[2], [2]⟩ 0 0 [1, 2], .hashPiece 1, .pieceWritten 1, .haveSent 1,
          .peersFound 0 [2], .pieceBlock ⟨[2], [2]⟩ 0 0 [1, 2], .hashPiece 0, .pieceWritten 0,
          .haveSent 0]).map fun r =>
      (r.tasks, r.session.completedPieces, r.session.pieceStatus)) =
        some ([], 2, [.have_]) := by
  exact ⟨twoBytesMissing_fresh, by decide +kernel, by decide +kernel⟩

end P2P
