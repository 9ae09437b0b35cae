import P2P.Spec.InProgress
import P2P.Spec.ResumeData

/-!
# Resuming a session

A session saves one bit for each piece, and for each block of the pieces in progress.
-/

namespace P2P

open Decimal Bitfield TorrentSession InProgressPiece Option OrdMap

/-! ## Blocks -/

theorem Bitfield.get_eq (bits : Bytes) (i : Nat) :
    get bits i = (bits.getD (i / 8) 0).toNat.testBit (7 - i % 8) := by
  unfold get
  rw [List.getD_eq_getElem?_getD]
  cases bits[i / 8]? with
  | none => exact (Nat.zero_testBit _).symm
  | some byte => rfl

theorem set_append_replicate {done : List Bool} {k : Nat} :
    (done ++ List.replicate (k + 1) false).set done.length true =
      done ++ [true] ++ List.replicate k false := by
  rw [List.set_append_right _ _ (Nat.le_refl _), Nat.sub_self, List.replicate_succ,
    List.set_cons_zero, List.append_assoc, List.singleton_append]

namespace InProgressPiece

theorem restoreBlock_flags (bits : Bytes) (p : InProgressPiece) (i : Nat) :
    (restoreBlock bits p i).blocksReceived =
      if get bits i then p.blocksReceived.set i true else p.blocksReceived := by
  unfold restoreBlock
  rw [← get_eq]
  split
  · rfl
  · rfl

theorem restore_flags (pieceSize : Nat) (bits : Bytes) :
    (restore pieceSize bits).blocksReceived =
      (List.range (blockCount pieceSize)).map (get bits) := by
  -- after `n` rounds the first `n` flags are the bits and the others are not set
  have hloop : ∀ n ≤ blockCount pieceSize,
      ((List.range n).foldl (restoreBlock bits) (new pieceSize)).blocksReceived =
        (List.range n).map (get bits) ++ List.replicate (blockCount pieceSize - n) false := by
    intro n
    induction n with
    | zero =>
      intro _
      rw [List.range_zero, List.foldl_nil, List.map_nil, List.nil_append, Nat.sub_zero]
      rfl
    | succ n ih =>
      intro hn
      have hrest : blockCount pieceSize - n = blockCount pieceSize - (n + 1) + 1 := by omega
      have hround := ih (by omega)
      rw [hrest] at hround
      rw [List.range_succ, List.foldl_append, List.foldl_cons, List.foldl_nil, List.map_append,
        List.map_singleton, restoreBlock_flags, hround]
      have hlen : n = ((List.range n).map (get bits)).length := by simp
      cases hbit : get bits n with
      | true =>
        rw [if_pos rfl]
        conv => lhs; arg 2; rw [hlen]
        exact set_append_replicate
      | false =>
        rw [if_neg Bool.false_ne_true, List.replicate_succ, List.append_assoc,
          List.singleton_append]
  have hall := hloop _ (Nat.le_refl _)
  rw [Nat.sub_self, List.replicate_zero, List.append_nil] at hall
  exact hall

variable {e : InProgressPiece} {pieceSize : Nat}

theorem restore_blockBitfield (he : e.Sane) (htotal : e.totalBlocks = blockCount pieceSize) :
    (restore pieceSize (blockBitfield e)).blocksReceived = e.blocksReceived ∧
      (restore pieceSize (blockBitfield e)).receivedCount = e.receivedCount ∧
      (restore pieceSize (blockBitfield e)).totalBlocks = e.totalBlocks := by
  have hflags : (restore pieceSize (blockBitfield e)).blocksReceived = e.blocksReceived := by
    rw [restore_flags, ← htotal]
    apply List.ext_getElem?
    intro i
    rw [List.getElem?_map]
    by_cases hi : i < e.totalBlocks
    · have hi' : i < e.blocksReceived.length := by rwa [he.flags]
      rw [List.getElem?_range hi, map_some, blockBitfield,
        get_pack _ hi, List.getElem?_eq_getElem hi']
      cases e.blocksReceived[i] with
      | true => rfl
      | false => rfl
    · have hrange : (List.range e.totalBlocks).length ≤ i := by
        rw [List.length_range]
        omega
      have hflags : e.blocksReceived.length ≤ i := by
        rw [he.flags]
        omega
      rw [List.getElem?_eq_none hrange, List.getElem?_eq_none hflags, map_none]
  refine ⟨hflags, ?_, ?_⟩
  · rw [(restore_sane _ _).count, hflags, he.count]
  · rw [restore_total, htotal]

theorem Sane.full_iff (he : e.Sane) : e.receivedCount = e.totalBlocks ↔ ∀ b, ¬ e.Open b := by
  rw [he.count, ← he.flags, List.count_eq_length]
  constructor
  · intro hall b hopen
    obtain ⟨hb, hflag⟩ := hopen
    refine hflag ?_
    rw [List.getElem?_eq_getElem hb, ← hall _ (List.getElem_mem hb)]
  · intro hclosed flag hflag
    obtain ⟨b, hb⟩ := List.mem_iff_getElem?.mp hflag
    by_contra hne
    refine hclosed b ⟨(List.getElem?_eq_some_iff.mp hb).1, ?_⟩
    rw [hb]
    exact fun heq => hne (some.inj heq).symm

end InProgressPiece

/-! ## Numbers of pieces -/

theorem TorrentSession.stoul_printNat {n : Nat} (hn : n < 2 ^ 64) :
    stoul (printNat n) = some n := by
  unfold stoul
  rw [signedDigits_printNat]
  simp only [Bool.false_eq_true, if_false, Bool.or_eq_true, decide_eq_true_eq, List.isEmpty_iff,
    printNat_ne_nil, false_or, digitsVal_printNat]
  rw [if_neg (by omega)]

namespace TorrentSession

/-! ## What is saved -/

theorem getInProgressForResume_eq (s : TorrentSession) :
    s.getInProgressForResume = (s.inProgressPieces.entries.map fun e =>
      (printNat e.1, blockBitfield e.2)).foldl (fun m e => m.insert e.1 e.2) empty := by
  rw [List.foldl_map]
  rfl

theorem nodup_saved (s : TorrentSession) :
    ((s.inProgressPieces.entries.map fun e => (printNat e.1, blockBitfield e.2)).map
      Prod.fst).Nodup := by
  have hkeys := s.inProgressPieces.nodup_keys.map printNat_injective
  rw [List.map_map] at hkeys ⊢
  exact hkeys

variable {s : TorrentSession} {p : Nat} {e : InProgressPiece}

theorem getInProgressForResume_get? (h : s.inProgressPieces.get? p = some e) :
    s.getInProgressForResume.get? (printNat p) = some (blockBitfield e) := by
  rw [getInProgressForResume_eq]
  refine get?_foldl_insert_of_mem s.nodup_saved ?_ _
  exact List.mem_map.mpr ⟨(p, e), s.inProgressPieces.mem_entries.mpr h, rfl⟩

theorem exists_of_getInProgressForResume {key bits : Bytes}
    (h : s.getInProgressForResume.get? key = some bits) :
    ∃ p e, s.inProgressPieces.get? p = some e ∧ key = printNat p ∧ bits = blockBitfield e := by
  by_cases hmem : key ∈ (s.inProgressPieces.entries.map fun e =>
      (printNat e.1, blockBitfield e.2)).map Prod.fst
  · obtain ⟨⟨key', bits'⟩, hmem', rfl⟩ := List.mem_map.mp hmem
    obtain ⟨⟨p, e⟩, hentry, heq⟩ := List.mem_map.mp hmem'
    obtain ⟨rfl, rfl⟩ := Prod.mk.inj heq
    have hget := s.inProgressPieces.mem_entries.mp hentry
    have hbits := getInProgressForResume_get? hget
    exact ⟨p, e, hget, rfl, some.inj (h.symm.trans hbits)⟩
  · rw [getInProgressForResume_eq, get?_foldl_insert_of_not_mem hmem] at h
    cases h

/-! ## What a resumed session has -/

def resumedStatus : PieceStatus → PieceStatus
  | .have_ => .have_
  | .skipped => .skipped
  | _ => .needed

theorem map_resumedStatus_needed (hlt : p < s.numPieces) (hhave : s.pieceStatus[p]? ≠ some .have_)
    (hskipped : s.pieceStatus[p]? ≠ some .skipped) :
    (s.pieceStatus[p]?).map resumedStatus = some .needed := by
  rw [List.getElem?_eq_getElem hlt, Ne, some_inj] at hhave hskipped
  rw [List.getElem?_eq_getElem hlt, map_some]
  cases hcase : s.pieceStatus[p] with
  | needed => rfl
  | inProgress => rfl
  | have_ => exact absurd hcase hhave
  | skipped => exact absurd hcase hskipped

theorem map_resumedStatus_have {status : Option PieceStatus} :
    status.map resumedStatus = some .have_ ↔ status = some .have_ := by
  cases status with
  | none => exact Iff.rfl
  | some status => cases status <;> decide

def Sized (E : Env) (s : TorrentSession) : Prop :=
  ∀ p e, s.inProgressPieces.get? p = some e →
    p < s.numPieces ∧ e.Sane ∧ e.totalBlocks =
      blockCount (E.info.pieceSizeOf s.numPieces p)

variable {E : Env}

theorem Sized.restored (hsized : s.Sized E) (h : s.inProgressPieces.get? p = some e) :
    ∃ progress, restore (E.info.pieceSizeOf s.numPieces p) (blockBitfield e) = progress ∧
      progress.blocksReceived = e.blocksReceived ∧ progress.receivedCount = e.receivedCount ∧
      (progress.receivedCount = progress.totalBlocks ↔ ∀ b, ¬ e.Open b) := by
  obtain ⟨-, hsane, htotal⟩ := hsized p e h
  obtain ⟨hflags, hreceived, htotal'⟩ := restore_blockBitfield hsane htotal
  refine ⟨_, rfl, hflags, hreceived, ?_⟩
  rw [hreceived, htotal', hsane.full_iff]

theorem Sized.of_restores (hsized : s.Sized E) (hcount : s.numPieces < 2 ^ 32)
    {entry : Bytes × Bytes} (hentry : entry ∈ s.getInProgressForResume.entries)
    (h : Restores E s.numPieces p entry) :
    ∃ e, s.inProgressPieces.get? p = some e ∧ entry.2 = blockBitfield e ∧ ∃ b, e.Open b := by
  obtain ⟨q, e, hq, hkey, hbits⟩ := exists_of_getInProgressForResume ((mem_entries _).mp hentry)
  have hlt := (hsized q e hq).1
  obtain ⟨hp, -, hmissing⟩ := h
  rw [hkey, stoul_printNat (by omega), some_inj] at hp
  subst hp
  obtain ⟨progress, hprogress, -, -, hfull⟩ := hsized.restored hq
  rw [hbits, hprogress] at hmissing
  exact ⟨e, hq, hbits, not_forall_not.mp (mt hfull.mpr hmissing)⟩

theorem Sized.restores (hsized : s.Sized E) (hcount : s.numPieces < 2 ^ 32) {b : Nat}
    (h : s.inProgressPieces.get? p = some e) (hopen : e.Open b) :
    Restores E s.numPieces p (printNat p, blockBitfield e) := by
  obtain ⟨hlt, hsane, -⟩ := hsized p e h
  obtain ⟨progress, hprogress, -, -, hfull⟩ := hsized.restored h
  unfold Restores
  rw [hprogress]
  refine ⟨stoul_printNat (by omega), ?_, fun heq => hfull.mp heq b hopen⟩
  have hflags := hsane.flags
  have hblock := hopen.1
  rw [← List.length_pos_iff_ne_nil, blockBitfield, length_pack]
  omega

theorem Sized.fits (hsized : s.Sized E) (hcount : s.numPieces < 2 ^ 32)
    {mtimes : OrdMap Bytes Int64}
    (hmtimes : ∀ path mtime, mtimes.get? path = some mtime → path.length < 2 ^ 63) :
    (s.resumeData mtimes).Fits where
  haveBitfield := by
    show (pack _ _).length < _
    rw [length_pack]
    omega
  paths := hmtimes
  pieces key bits hkey := by
    obtain ⟨p, e, hp, rfl, rfl⟩ := exists_of_getInProgressForResume hkey
    obtain ⟨hlt, hsane, -⟩ := hsized p e hp
    have hdigits := length_printNat_le p
    have htotal := hsane.total_lt
    rw [blockBitfield, length_pack]
    omega

section Resumed

variable {E : Env} {s t : TorrentSession} (mtimes : OrdMap Bytes Int64)
  (hnum : t.numPieces = s.numPieces)
  (hskip : ∀ p : Nat, t.pieceStatus[p]? = some .skipped ↔ s.pieceStatus[p]? = some .skipped)
  (hfiles : ∀ file ∈ E.info.files,
    (t.manager.disk (E.resolve (E.getFullPathForFile file))).isSome = true)

include hnum

theorem length_saved :
    (s.resumeData mtimes).toLoad.haveBitfield.length = (t.numPieces + 7) / 8 := by
  rw [hnum]
  exact length_pack _ _

include hskip hfiles

theorem afterFiles_saved : (t.afterFiles E (s.resumeData mtimes).toLoad).pieceStatus =
    s.pieceStatus.map resumedStatus := by
  classical
  apply List.ext_getElem?
  intro p
  rw [List.getElem?_map]
  by_cases hp : p < t.numPieces
  · have hp' : p < s.pieceStatus.length := hp.trans_eq hnum
    have hbit : ((s.resumeData mtimes).toLoad.haveBitfield.getD (p / 8) 0).toNat.testBit
        (7 - p % 8) = decide (s.pieceStatus[p]? = some .have_) := by
      rw [← get_eq]
      exact get_pack _ hp'
    have hfile : ¬ t.FileGone E (s.resumeData mtimes).toLoad p := by
      rintro ⟨-, file, hfile, -, hnone⟩
      have hsome := hfiles _ (List.of_mem_zip hfile).1
      rw [hnone] at hsome
      cases hsome
    rw [afterFiles_status hp, Missing, hbit, Ne, hskip p, List.getElem?_eq_getElem hp']
    cases s.pieceStatus[p] <;> simp [hfile, resumedStatus]
  · rw [List.getElem?_eq_none, List.getElem?_eq_none, map_none]
    · exact hnum.symm.le.trans (Nat.le_of_not_lt hp)
    · exact afterFiles_numPieces.le.trans (Nat.le_of_not_lt hp)

theorem completedPieces_saved :
    (t.loadSessionState E (s.resumeData mtimes).toLoad).completedPieces =
      s.pieceStatus.count .have_ := by
  obtain ⟨endgame, heq⟩ := loadSessionState_eq (E := E) (length_saved mtimes hnum)
  obtain ⟨status, pieces, -, hfold⟩ := resumePieces_frame (E := E)
    (s.resumeData mtimes).toLoad.inProgressPieces (t.afterFiles E (s.resumeData mtimes).toLoad)
  rw [heq, hfold]
  show (t.afterFiles E (s.resumeData mtimes).toLoad).pieceStatus.count .have_ = _
  rw [afterFiles_saved mtimes hnum hskip hfiles, List.count_eq_countP, List.count_eq_countP,
    List.countP_map]
  apply List.countP_congr
  intro status _
  cases status <;> decide

end Resumed

structure Resumes (s t : TorrentSession) : Prop where
  have_iff : ∀ p : Nat, t.pieceStatus[p]? = some .have_ ↔ s.pieceStatus[p]? = some .have_
  completed : t.completedPieces = s.pieceStatus.count .have_
  inProgress : ∀ (p : Nat) (e : InProgressPiece), s.inProgressPieces.get? p = some e →
    s.pieceStatus[p]? ≠ some .have_ → s.pieceStatus[p]? ≠ some .skipped → (∃ b, e.Open b) →
    t.pieceStatus[p]? = some .inProgress ∧ ∃ e', t.inProgressPieces.get? p = some e' ∧
      e'.blocksReceived = e.blocksReceived ∧ e'.receivedCount = e.receivedCount
  needed : ∀ p < s.numPieces, s.pieceStatus[p]? ≠ some .have_ →
    s.pieceStatus[p]? ≠ some .skipped →
    (∀ e, s.inProgressPieces.get? p = some e → ¬ ∃ b, e.Open b) →
    t.pieceStatus[p]? = some .needed
  skipped : ∀ p : Nat, s.pieceStatus[p]? = some .skipped → t.pieceStatus[p]? = some .skipped

theorem loadSessionState_resumes {t : TorrentSession} (mtimes : OrdMap Bytes Int64)
    (hnum : t.numPieces = s.numPieces)
    (hskip : ∀ p : Nat, t.pieceStatus[p]? = some .skipped ↔ s.pieceStatus[p]? = some .skipped)
    (hsized : s.Sized E) (hcount : s.numPieces < 2 ^ 32) (hfresh : t.Fresh)
    (hfiles : ∀ file ∈ E.info.files,
      (t.manager.disk (E.resolve (E.getFullPathForFile file))).isSome = true) :
    s.Resumes (t.loadSessionState E (s.resumeData mtimes).toLoad) := by
  have hstatus : ∀ p : Nat, (t.afterFiles E (s.resumeData mtimes).toLoad).pieceStatus[p]? =
      (s.pieceStatus[p]?).map resumedStatus := by
    intro p
    rw [afterFiles_saved mtimes hnum hskip hfiles, List.getElem?_map]
  have hpiece := fun p => loadSessionState_restored (E := E) (p := p) (length_saved mtimes hnum)
  have hnone : ∀ p,
    (t.afterFiles E (s.resumeData mtimes).toLoad).inProgressPieces.get? p = none := by
    intro p
    show t.inProgressPieces.get? p = none
    rw [hfresh.entries]
    rfl
  simp only [Restored, hstatus, hnone, forall_const, afterFiles_numPieces, hnum] at hpiece
  constructor
  case have_iff =>
    intro p
    rcases hpiece p with ⟨hneeded, hload, -⟩ | ⟨-, hload, -⟩
    · refine iff_of_false (by rw [hload]; decide) fun hhave => ?_
      rw [hhave] at hneeded
      cases hneeded
    · rw [hload, map_resumedStatus_have]
  case completed => exact completedPieces_saved mtimes hnum hskip hfiles
  case inProgress =>
    rintro p e hget hhave hskipped ⟨b, hopen⟩
    have hneeded := map_resumedStatus_needed (hsized p e hget).1 hhave hskipped
    rcases hpiece p with ⟨-, hload, entry, hentry, hrestores, hentry'⟩ | ⟨hno, -⟩
    · obtain ⟨e', hget', hbits, -⟩ := hsized.of_restores hcount hentry hrestores
      cases hget.symm.trans hget'
      obtain ⟨progress, hprogress, hflags, hreceived, -⟩ := hsized.restored hget
      rw [hbits, hprogress] at hentry'
      exact ⟨hload, progress, hentry', hflags, hreceived⟩
    · exact absurd (hsized.restores hcount hget hopen)
        (hno hneeded _ ((mem_entries _).mpr (getInProgressForResume_get? hget)))
  case needed =>
    intro p hlt hhave hskipped hclosed
    rcases hpiece p with ⟨-, -, entry, hentry, hrestores, -⟩ | ⟨-, hload, -⟩
    · obtain ⟨e, hget, -, hopen⟩ := hsized.of_restores hcount hentry hrestores
      exact absurd hopen (hclosed e hget)
    · rw [hload, map_resumedStatus_needed hlt hhave hskipped]
  case skipped =>
    intro p hskipped
    rcases hpiece p with ⟨hneeded, -⟩ | ⟨-, hload, -⟩
    · rw [hskipped] at hneeded
      cases hneeded
    · rw [hload, hskipped]
      rfl

end TorrentSession

/-- **Resuming restores what was saved.** Resume data of any state are written and read back. -/
theorem resume_restores {E E' : Env} {sha1 : Bytes → Bytes} (hc : E.info.Consistent)
    (hinfo : E'.info = E.info)
    {s₀ : TorrentSession} (hs₀ : s₀.Fresh) (hnum₀ : s₀.numPieces = E.info.numPieces)
    {resume : Option TorrentSession.ResumeData} {steps : List PieceStep} {r : PieceRun}
    (hrun : PieceStep.run E sha1 steps (PieceRun.start E s₀ resume) = some r)
    (mtimes : OrdMap Bytes Int64)
    (hmtimes : ∀ path mtime, mtimes.get? path = some mtime → path.length < 2 ^ 63)
    {t : TorrentSession} (ht : t.Fresh) (hnum : t.numPieces = E.info.numPieces)
    (hskip : ∀ p : Nat,
      t.pieceStatus[p]? = some .skipped ↔ r.session.pieceStatus[p]? = some .skipped)
    (hfiles : ∀ file ∈ E'.info.files,
      (t.manager.disk (E'.resolve (E'.getFullPathForFile file))).isSome = true) :
    (∃ data, (ResumeData.deserialize (r.session.resumeData mtimes).serialize).run.run () =
        (.ok data, ()) ∧
      r.session.Resumes (t.loadSessionState E' data.toLoad)) ∧
    ∀ data : ResumeData, data.Fits →
      (ResumeData.deserialize data.serialize).run.run () = (.ok data, ()) := by
  have hholds := run_holds (sizedRule E E.info.numPieces) hs₀ hnum₀ hrun
  have hcount : r.session.numPieces < 2 ^ 32 := by
    rw [hholds.num]
    exact hc.numPieces_lt
  have hsized : r.session.Sized E' := by
    intro p e hget
    rw [hinfo, hholds.num]
    exact hholds.entries p e hget
  refine ⟨⟨r.session.resumeData mtimes, ?_, ?_⟩, fun data hdata => ?_⟩
  · exact ResumeData.deserialize_serialize () (hsized.fits hcount hmtimes)
  · exact loadSessionState_resumes mtimes (hnum.trans hholds.num.symm) hskip hsized
      hcount ht hfiles
  · exact ResumeData.deserialize_serialize () hdata

theorem resume_restores_second_block :
    ∃ r data, PieceStep.run twoBlockEnv (hashOf twoBlockPiece)
        [.tryPieceDownload 0, .peersFound 0 [2], .pieceBlock ⟨[2], [2]⟩ 0 16384 [1]]
        (.start twoBlockEnv twoBlocksMissing none) = some r ∧
      (ResumeData.deserialize (r.session.resumeData empty).serialize).run.run () =
        (.ok data, ()) ∧
      r.session.Resumes (twoBlocksMissing.loadSessionState twoBlockEnv data.toLoad) ∧
      ((r.session.inProgressPieces.get? 0).map (·.blocksReceived)) = some [false, true] := by
  have hstate : ((PieceStep.run twoBlockEnv (hashOf twoBlockPiece)
      [.tryPieceDownload 0, .peersFound 0 [2], .pieceBlock ⟨[2], [2]⟩ 0 16384 [1]]
      (.start twoBlockEnv twoBlocksMissing none)).map fun r =>
        (r.session.pieceStatus, (r.session.inProgressPieces.get? 0).map (·.blocksReceived))) =
      some ([.inProgress], some [false, true]) := by decide +kernel
  obtain ⟨r, hrun, hr⟩ := map_eq_some_iff.mp hstate
  obtain ⟨hstatus, hentry⟩ := Prod.mk.inj hr
  have hfresh : twoBlocksMissing.Fresh :=
    ⟨fun status hmem => .inl (List.mem_singleton.mp hmem), rfl, rfl, rfl⟩
  have hconsistent : twoBlockEnv.info.Consistent := by
    constructor <;> decide
  have hskip : ∀ p : Nat, twoBlocksMissing.pieceStatus[p]? = some .skipped ↔
      r.session.pieceStatus[p]? = some .skipped := by
    intro p
    rw [hstatus]
    cases p with
    | zero => decide
    | succ p => exact Iff.rfl
  obtain ⟨⟨data, hdata, hresumes⟩, -⟩ := resume_restores hconsistent rfl hfresh rfl hrun
    empty nofun hfresh rfl hskip fun _ _ => rfl
  exact ⟨r, data, hrun, hdata, hresumes, hentry⟩

end P2P
