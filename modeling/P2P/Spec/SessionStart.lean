import P2P.Spec.FileSelection
import P2P.Spec.PieceTasks
import P2P.Spec.SessionLoad

/-!
# The start of a session

A session that downloads starts with its pieces needed or skipped.
-/

namespace P2P

open PieceRun TorrentSession PieceStep List

namespace TorrentSession

structure Fresh (s : TorrentSession) : Prop where
  status : ∀ status ∈ s.pieceStatus, status = .needed ∨ status = .skipped
  completed : s.completedPieces = 0
  complete : s.isDownloadComplete = false
  entries : s.inProgressPieces = OrdMap.empty

section Load

variable {E : Env} {P : PieceStatus → Prop} {n : Nat} {Q : Nat → InProgressPiece → Prop}

theorem loadSessionState_keeps (hQ : EntryRule E n Q) (s : TorrentSession) (hn : s.numPieces = n)
    (data : ResumeData) (hneeded : P .needed) (hhave : P .have_) (hinProgress : P .inProgress)
    (hs : ∀ status ∈ s.pieceStatus, P status) (hentries : s.inProgressPieces = OrdMap.empty) :
    (∀ status ∈ (s.loadSessionState E data).pieceStatus, P status) ∧
      ∀ p e, (s.loadSessionState E data).inProgressPieces.get? p = some e → Q p e := by
  by_cases hlen : data.haveBitfield.length = (s.numPieces + 7) / 8
  · have hpiece := fun p => loadSessionState_restored (E := E) (p := p) hlen
    have hlt : ∀ {p status}, (s.afterFiles E data).pieceStatus[p]? = some status →
      p < s.numPieces :=
      fun h => afterFiles_numPieces (E := E) ▸ (List.getElem?_eq_some_iff.mp h).1
    constructor
    · intro status hmem
      obtain ⟨p, hp⟩ := mem_iff_getElem?.mp hmem
      rcases hpiece p with ⟨-, hstatus, -⟩ | ⟨-, hstatus, -⟩
      · cases hp.symm.trans hstatus
        exact hinProgress
      · rw [hstatus] at hp
        rcases afterFiles_cases hp with rfl | rfl | ⟨rfl, hskipped⟩
        · exact hneeded
        · exact hhave
        · exact hs _ (mem_of_getElem? hskipped)
    · intro p e he
      have hnone : (s.afterFiles E data).inProgressPieces.get? p = none := by
        show s.inProgressPieces.get? p = none
        rw [hentries]
        rfl
      rcases hpiece p with ⟨hneeded, -, entry, -, -, hget⟩ | ⟨-, -, hget⟩
      · have hrestored := hget hnone
        rw [he, Option.some_inj, afterFiles_numPieces, hn] at hrestored
        rw [hrestored]
        exact hQ.restore p (hn ▸ hlt hneeded) _
      · exact nomatch he.symm.trans (hget.trans hnone)
  · -- the bitfield has a wrong length, and the session is reset
    unfold loadSessionState
    rw [if_pos hlen]
    refine ⟨fun status hmem => ?_, nofun⟩
    obtain ⟨-, -, rfl⟩ := mem_map.mp hmem
    exact hneeded

theorem loadSessionState_entries (s : TorrentSession) (data : ResumeData)
    (hdata : data.inProgressPieces = []) (hentries : s.inProgressPieces = OrdMap.empty) :
    (s.loadSessionState E data).inProgressPieces = OrdMap.empty ∧
      ∀ status ∈ (s.loadSessionState E data).pieceStatus, status ≠ .inProgress := by
  by_cases hlen : data.haveBitfield.length = (s.numPieces + 7) / 8
  · obtain ⟨endgame, heq⟩ := loadSessionState_eq (E := E) hlen
    rw [heq, hdata]
    refine ⟨hentries, fun status hmem => ?_⟩
    obtain ⟨p, hp⟩ := mem_iff_getElem?.mp hmem
    rcases afterFiles_cases hp with rfl | rfl | ⟨rfl, -⟩ <;> decide
  · unfold loadSessionState
    rw [if_pos hlen]
    refine ⟨rfl, fun status hmem => ?_⟩
    obtain ⟨-, -, rfl⟩ := mem_map.mp hmem
    decide

end Load

end TorrentSession

section Start

variable {E : Env} {s : TorrentSession}

theorem board_start_some (E : Env) (s : TorrentSession) (data : TorrentSession.ResumeData) :
    (start E s (some data)).board = (board ⟨s.loadSessionState E data, []⟩).verifyFrom 0 0 0 := by
  have h : board ⟨(verifyFrom (s.loadSessionState E data) 0 0).1,
      [] ++ (verifyFrom (s.loadSessionState E data) 0 0).2⟩ =
      (board ⟨s.loadSessionState E data, []⟩).verifyFrom 0 0 0 := board_verifyFrom rfl
  exact h

variable {n : Nat} {Q : Nat → InProgressPiece → Prop}

theorem start_holds (hQ : EntryRule E n Q) (hs : s.Fresh) (hn : s.numPieces = n)
    (resume : Option TorrentSession.ResumeData) : (start E s resume).Holds n Q := by
  cases resume with
  | none =>
    refine ⟨hn, fun p e he => ?_, fun p hp => absurd hp not_mem_nil⟩
    have he' : s.inProgressPieces.get? p = some e := he
    rw [hs.entries] at he'
    cases he'
  | some data =>
    obtain ⟨-, hentries⟩ := s.loadSessionState_keeps (P := fun _ => True) hQ hn data trivial
      trivial trivial (fun _ _ => trivial) hs.entries
    have hlen := (s.loadSessionState_frame (E := E) data).1
    obtain ⟨hstatus, hpieces, hts⟩ :=
      verifyFrom_keeps (Prod.eta (verifyFrom (s.loadSessionState E data) 0 0)).symm
    refine ⟨?_, fun p e he => hentries p e ?_, fun p hp => absurd hp (hts p)⟩
    · exact (congrArg length hstatus).trans (hlen.trans hn)
    · rw [← hpieces]
      exact he

theorem start_sane (hs : s.Fresh) (resume : Option TorrentSession.ResumeData) :
    (start E s resume).Sane :=
  (start_holds (saneRule E s.numPieces) hs rfl resume).sane

variable {sha1 : Bytes → Bytes} {resume : Option TorrentSession.ResumeData} {steps : List PieceStep}
    {r : PieceRun}

theorem run_holds (hQ : EntryRule E n Q) (hs : s.Fresh) (hn : s.numPieces = n)
    (hrun : run E sha1 steps (start E s resume) = some r) : r.Holds n Q :=
  runSteps_preserves (fun _ _ _ hstep hr => step_holds hQ hr hstep) hrun
    (start_holds hQ hs hn resume)

theorem TorrentSession.Fresh.count_have (hs : s.Fresh) : s.pieceStatus.count .have_ = 0 := by
  apply count_eq_zero_of_not_mem
  intro hmem
  cases hs.status _ hmem with
  | inl h => exact nomatch h
  | inr h => exact nomatch h

theorem start_counted (hs : s.Fresh) (resume : Option TorrentSession.ResumeData) :
    (start E s resume).board.Counted := by
  cases resume with
  | none =>
    refine ⟨.of_idle rfl rfl, fun p hp => absurd hp (Multiset.notMem_zero p), fun _ => ?_, .inl rfl⟩
    exact hs.completed.trans hs.count_have.symm
  | some data =>
    rw [board_start_some]
    exact PieceBoard.Counted.verifyFrom (.of_idle rfl rfl) rfl rfl

theorem start_finished (hs : s.Fresh) (hpos : 0 < s.numPieces)
    (hskip : PieceStatus.skipped ∉ s.pieceStatus) (resume : Option TorrentSession.ResumeData) :
    (start E s resume).board.Finished := by
  have hcounted := start_counted (E := E) hs resume
  cases resume with
  | none =>
    refine ⟨hcounted, hpos, hskip, fun h => ?_, fun _ _ h => ?_⟩
    · have h' : s.isDownloadComplete = true := h
      rw [hs.complete] at h'
      cases h'
    · have h' : s.completedPieces = s.numPieces := h
      rw [hs.completed] at h'
      exact absurd h' (Nat.ne_of_lt hpos)
  | some data =>
    obtain ⟨hlen, hcomplete, -⟩ := s.loadSessionState_frame (E := E) data
    obtain ⟨hunskipped, -⟩ := s.loadSessionState_keeps
      (P := fun status => status ≠ .skipped) (saneRule E s.numPieces) rfl data (by decide)
      (by decide) (by decide)
      (fun status hmem h => hskip (h ▸ hmem)) hs.entries
    rw [board_start_some] at hcounted ⊢
    refine PieceBoard.Finished.verifyFrom hcounted ?_ ?_ (hcomplete.trans hs.complete)
    · exact Nat.lt_of_lt_of_eq hpos hlen.symm
    · exact fun hmem => hunskipped _ hmem rfl

theorem entries_of_empty (h : s.inProgressPieces = OrdMap.empty) (p : Nat) :
    s.entries p = none := by
  rw [entries, h]
  rfl

theorem start_matched (hs : s.Fresh) (resume : Option TorrentSession.ResumeData)
    (hresume : ∀ data ∈ resume, data.inProgressPieces = []) : (start E s resume).board.Matched := by
  cases resume with
  | none =>
    refine .of_empty rfl rfl (entries_of_empty hs.entries) fun status hmem => ?_
    cases hs.status status hmem with
    | inl h => exact h ▸ nofun
    | inr h => exact h ▸ nofun
  | some data =>
    obtain ⟨hentries, hstatus'⟩ := s.loadSessionState_entries (E := E) data (hresume data rfl)
      hs.entries
    rw [board_start_some]
    obtain ⟨hbusy, hann, hentry⟩ := PieceBoard.verifyFrom_tasks
      (board ⟨s.loadSessionState E data, []⟩) 0 0 0
    refine .of_empty hbusy hann ?_ ?_
    · rw [hentry]
      exact entries_of_empty hentries
    · rw [PieceBoard.verifyFrom_status]
      exact hstatus'

theorem run_board {ok : PieceRun → PieceStep → Prop} {good : PieceBoard → PieceEvent → Prop}
    {I : PieceBoard → Prop} (hok : ∀ r st ev, ok r st → st.Yields r ev → good r.board ev)
    (hmoves : ∀ b ev b', b.Moves ev b' → good b ev → I b → I b') (hs : s.Fresh)
    (hstart : I (start E s resume).board)
    (hmeet : StepsMeet (step E sha1) ok steps (start E s resume))
    (hrun : run E sha1 steps (start E s resume) = some r) : I r.board := by
  have hkeep : ∀ r st r', ok r st → step E sha1 r st = some r' →
      (r.Sane ∧ I r.board) → (r'.Sane ∧ I r'.board) := by
    intro r st r' hst hstep hr
    obtain ⟨ev, hmove, hyields⟩ := step_moves hr.1 hstep
    exact ⟨step_sane hr.1 hstep, hmoves _ ev _ hmove (hok r st ev hst hyields) hr.2⟩
  exact (runSteps_invariant hkeep hmeet hrun ⟨start_sane hs resume, hstart⟩).2

end Start

end P2P
