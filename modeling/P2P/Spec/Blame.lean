import P2P.Spec.PieceBlock
import P2P.Spec.SessionLoad

/-!
# Who is blamed for a corrupt piece

When the hash of a piece is wrong, `on_piece_block` reports the peer of the last block, whoever sent
the wrong bytes.
-/

namespace P2P

open SessionStep List Option TorrentSession

namespace TorrentSession

variable {E : Env} {sha1 : Bytes → Bytes} {s s' : TorrentSession}

theorem reports_verifyLoop (pieces : List Nat) (n : Nat) {s : TorrentSession}
    (h : verifyLoop E sha1 pieces n s = some s') : s'.corruptReports = s.corruptReports := by
  induction pieces generalizing n s with
  | nil =>
    rw [← some.inj h]
  | cons piece pieces ih =>
    unfold verifyLoop at h
    split at h
    · exact ih n h
    · split at h
      · cases h
      · have hreports := ih (n + 1) h
        exact hreports
      · have hreports := ih n h
        exact hreports

theorem init_reports {resume : Option ResumeData} (h : s.init E sha1 resume = some s') :
    s'.corruptReports = s.corruptReports := by
  cases resume with
  | none => rw [← some.inj h]
  | some data =>
    obtain ⟨s₁, hverify, rfl⟩ := map_eq_some_iff.mp h
    have hreports := (reports_verifyLoop _ 0 hverify).trans (s.loadSessionState_frame data).2.2
    split
    · exact hreports
    · exact hreports

end TorrentSession

section Blame

variable (E : Env) (sha1 : Bytes → Bytes) (truth : Nat → Bytes) (addr : Bytes)

/-- The messages of the peer at `addr` carry the true bytes. -/
def HonestStep : SessionStep → Prop
  | .pieceBlock peer index begin block => peer.peerAddr = addr →
    index.toNat < E.info.numPieces ∧ block = (truth index.toNat).slice begin.toNat block.length
  | _ => True

def InProgressPiece.Completes (p : InProgressPiece) (begin : Nat) : Prop :=
  p.Open (begin / blockSize) ∧ u32 (p.receivedCount + 1) = p.totalBlocks

/-- If a message of the peer at `addr` completes a piece, the bytes outside its range are true. -/
def Attributable (r : SessionRun) : SessionStep → Prop
  | .pieceBlock peer index begin block => peer.peerAddr = addr →
    ∀ p, r.session.inProgressPieces.get? index.toNat = some p → p.Completes begin.toNat →
      ∀ i, ¬ (begin.toNat ≤ i ∧ i < begin.toNat + block.length) →
        p.data[i]? = (truth index.toNat)[i]?
  | _ => True

def AttributableRun : List SessionStep → SessionRun → Prop :=
  StepsMeet (step E sha1) (Attributable truth addr)

/-- The peer at `addr` was not reported, and the pieces it has completed have the right hash. -/
structure Unblamed (r : SessionRun) : Prop where
  reports : addr ∉ r.session.corruptReports
  completing : ∀ c ∈ r.completing, c.peerAddr = addr →
    sha1 c.pieceData = E.info.expectedHash c.piece

variable {E sha1 truth addr}

theorem overwrite_eq_truth {data block piece : Bytes} {begin : Nat}
    (hfit : begin + block.length ≤ data.length) (hblock : block = piece.slice begin block.length)
    (hrest : ∀ i, ¬ (begin ≤ i ∧ i < begin + block.length) → data[i]? = piece[i]?) :
    data.overwrite 0 begin block = piece := by
  apply ext_getElem?
  intro i
  rw [getElem?_overwrite 0 block (by omega) i]
  split
  · next hin =>
    rw [hblock, getElem?_slice, if_pos (by omega), Nat.add_sub_cancel' hin.1]
  · next hout => exact hrest i hout

theorem data_of_completes {p p₁ : InProgressPiece} {begin : Nat} {block piece : Bytes}
    (hstore : p.store (begin / blockSize) begin block = some p₁)
    (hblock : block = piece.slice begin block.length)
    (hrest : ∀ i, ¬ (begin ≤ i ∧ i < begin + block.length) → p.data[i]? = piece[i]?) :
    p₁.data = piece := by
  obtain ⟨hfit, hdata, -⟩ := InProgressPiece.store_some hstore
  rw [hdata]
  exact overwrite_eq_truth hfit hblock hrest

theorem finishPiece_reports {s s' : TorrentSession} {piece : Nat} {pieceData peerAddr : Bytes}
    (h : s.finishPiece E sha1 piece pieceData peerAddr = some s') :
    s'.corruptReports = s.corruptReports ∨
      (sha1 pieceData ≠ E.info.expectedHash piece ∧
        s'.corruptReports = peerAddr :: s.corruptReports) := by
  unfold TorrentSession.finishPiece at h
  split at h
  · next hwrong =>
    cases h
    exact .inr ⟨hwrong, rfl⟩
  · left
    -- the piece is written, and the cache may be flushed
    obtain ⟨manager, -, h⟩ := bind_eq_some_iff.mp h
    dsimp only at h
    split at h
    · obtain ⟨manager', -, h⟩ := bind_eq_some_iff.mp h
      rw [← some.inj h]
    · rw [← some.inj h]

theorem reports_setRequests (s : TorrentSession) (piece : Nat) (requests : List (List Bytes)) :
    (s.setRequests piece requests).corruptReports = s.corruptReports := by
  unfold TorrentSession.setRequests
  split
  · rfl
  · rfl

theorem reports_checkAndEnterEndgame (s : TorrentSession) (stalled : Bool) :
    (s.checkAndEnterEndgame stalled).corruptReports = s.corruptReports := by
  unfold TorrentSession.checkAndEnterEndgame
  split
  · rfl
  · dsimp only
    split
    · rfl
    · rfl

theorem reports_onBlockRequest {s s' : TorrentSession} {conn conn' : PeerConnection}
    {index begin length : UInt32} {res : Except FileManager.ReadError Unit}
    (h : s.onBlockRequest E conn index begin length = some (res, s', conn')) :
    s'.corruptReports = s.corruptReports := by
  unfold onBlockRequest at h
  split at h
  · cases h
    rfl
  · dsimp only at h
    split at h
    · cases h
    · cases h
      rfl
    · cases h
      rfl

theorem Unblamed.of_eq {r r' : SessionRun} (h : Unblamed E sha1 addr r)
    (hreports : r'.session.corruptReports = r.session.corruptReports)
    (hcompleting : r'.completing = r.completing) : Unblamed E sha1 addr r' := by
  constructor
  · rw [hreports]
    exact h.reports
  · rw [hcompleting]
    exact h.completing

section Step

variable (hhash : ∀ p < E.info.numPieces, sha1 (truth p) = E.info.expectedHash p)
  {r r' : SessionRun}

include hhash

theorem pieceBlock_unblamed {peer : Peer} {index begin : UInt32} {block : Bytes}
    (h : Unblamed E sha1 addr r)
    (hhonest : HonestStep E truth addr (.pieceBlock peer index begin block))
    (hattr : Attributable truth addr r (.pieceBlock peer index begin block))
    (hstep : step E sha1 r (.pieceBlock peer index begin block) = some r') :
    Unblamed E sha1 addr r' := by
  simp only [step] at hstep
  cases hrun : r.session.onPieceBlock E peer index begin block with
  | none =>
    rw [hrun] at hstep
    cases hstep
  | some res =>
    obtain ⟨s', outcome⟩ := res
    rw [hrun] at hstep
    cases onPieceBlock_cases E peer hrun with
    | inl hidle =>
      -- the block is not wanted, and nothing happens
      obtain ⟨rfl, houtcome⟩ := hidle
      cases houtcome with rw [hout] at hstep
      | inl hout =>
        cases hstep
        exact h.of_eq rfl rfl
      | inr hout =>
        cases hstep
        exact h.of_eq rfl rfl
    | inr hstored =>
      obtain ⟨p, p₁, requests, cancels, hp, hopen, hstore, rfl, hreports, hpieces⟩ := hstored
      have hnot : addr ∉ s'.corruptReports := by
        rw [hreports]
        exact h.reports
      by_cases hlast : p₁.receivedCount = p₁.totalBlocks
      · -- the block was the last one: the piece waits for its hash
        rw [decide_eq_true hlast] at hstep
        dsimp only at hstep
        rw [hpieces, OrdMap.get?_insert, if_pos rfl] at hstep
        cases hstep
        refine ⟨hnot, ?_⟩
        intro c hc haddr
        cases mem_append.mp hc with
        | inl hold => exact h.completing c hold haddr
        | inr hnew =>
          -- the piece that is completed now: its buffer is the true piece
          rw [mem_singleton.mp hnew] at haddr ⊢
          obtain ⟨hindex, hblock⟩ := hhonest haddr
          obtain ⟨-, -, -, hcount, htotal⟩ := InProgressPiece.store_some hstore
          have hrest := hattr haddr p hp ⟨hopen, by rw [← hcount, hlast, htotal]⟩
          show sha1 p₁.data = _
          rw [data_of_completes hstore hblock hrest]
          exact hhash _ hindex
      · rw [decide_eq_false hlast] at hstep
        cases hstep
        exact ⟨hnot, h.completing⟩

theorem step_unblamed {st : SessionStep} (h : Unblamed E sha1 addr r)
    (hhonest : HonestStep E truth addr st) (hattr : Attributable truth addr r st)
    (hstep : st.step E sha1 r = some r') : Unblamed E sha1 addr r' := by
  cases st with simp only [step] at hstep
  | tryPieceDownload piece =>
    split at hstep
    · cases hstep
      exact h.of_eq rfl rfl
    · cases hstep
  | startPiece i primary =>
    split at hstep
    · cases hstep
    · cases hstep
      exact h.of_eq rfl rfl
  | pieceBlock peer index begin block => exact pieceBlock_unblamed hhash h hhonest hattr hstep
  | finishPiece i =>
    split at hstep
    · cases hstep
    · next c hc =>
      obtain ⟨s', hfinish, rfl⟩ := map_eq_some_iff.mp hstep
      constructor
      · cases finishPiece_reports hfinish with
        | inl hsame =>
          show addr ∉ s'.corruptReports
          rw [hsame]
          exact h.reports
        | inr hwrong =>
          -- the hash is wrong, so another peer completed the piece
          show addr ∉ s'.corruptReports
          rw [hwrong.2, mem_cons, not_or]
          refine ⟨?_, h.reports⟩
          intro heq
          exact hwrong.1 (h.completing c (mem_of_getElem? hc) heq.symm)
      · intro c' hc' haddr
        exact h.completing c' (mem_of_mem_eraseIdx hc') haddr
  | setRequests piece requests =>
    cases hstep
    exact h.of_eq (reports_setRequests ..) rfl
  | checkAndEnterEndgame stalled =>
    cases hstep
    exact h.of_eq (reports_checkAndEnterEndgame ..) rfl
  | blockRequest conn index begin length =>
    obtain ⟨⟨res, s', conn'⟩, hreq, rfl⟩ := map_eq_some_iff.mp hstep
    exact h.of_eq (reports_onBlockRequest hreq) rfl

theorem run_unblamed (steps : List SessionStep) (h : Unblamed E sha1 addr r)
    (hhonest : ∀ st ∈ steps, HonestStep E truth addr st)
    (hattr : AttributableRun E sha1 truth addr steps r)
    (hrun : run E sha1 steps r = some r') : Unblamed E sha1 addr r' :=
  runSteps_invariant (fun _ _ _ hok hstep h => step_unblamed hhash h hok.1 hok.2 hstep)
    ((StepsMeet.of_forall hhonest r).and hattr) hrun h

end Step

end Blame

/-- In a session that starts fresh or from resume data, a peer with true bytes in all its messages
    is not reported, if whenever one completes a piece the bytes outside the message are right. -/
theorem honest_not_reported (E : Env) (sha1 : Bytes → Bytes) (truth : Nat → Bytes)
    (hhash : ∀ p < E.info.numPieces, sha1 (truth p) = E.info.expectedHash p) (addr : Bytes)
    (s₀ s : TorrentSession) (hnew : addr ∉ s₀.corruptReports)
    (resume : Option TorrentSession.ResumeData) (hinit : s₀.init E sha1 resume = some s)
    (steps : List SessionStep) (hhonest : ∀ st ∈ steps, HonestStep E truth addr st)
    (hattr : AttributableRun E sha1 truth addr steps ⟨s, [], []⟩)
    (r : SessionRun) (hrun : run E sha1 steps ⟨s, [], []⟩ = some r) :
    addr ∉ r.session.corruptReports := by
  have hstart : Unblamed E sha1 addr ⟨s, [], []⟩ := by
    constructor
    · rw [init_reports hinit]
      exact hnew
    · intro c hc
      exact absurd hc not_mem_nil
  exact (run_unblamed hhash steps hstart hhonest hattr hrun).reports

def twoBlockEnv : Env :=
  { twoByteEnv with
    info := {
      totalSize := 16385
      pieceSize := 16385
      pieces := List.replicate 20 0
      files := [{ path := PosixPath.empty, size := 16385 }] } }

def twoBlockPiece : Bytes := List.replicate 16385 1

def hashOf (piece data : Bytes) : Bytes := if data = piece then List.replicate 20 0 else 1 :: data

theorem hashOf_injective (piece : Bytes) : Function.Injective (hashOf piece) := by
  intro a b h
  unfold hashOf at h
  split at h
  · split at h
    · next ha hb => rw [ha, hb]
    · exact nomatch (cons.inj h).1
  · split at h
    · exact nomatch (cons.inj h).1
    · exact (cons.inj h).2

def firstBlockReceived : TorrentSession.ResumeData :=
  ⟨[0], [], [(Bytes.ascii "0", [128])]⟩

/-- The session starts from resume data, so that the first block has its flag but not its bytes. -/
theorem honest_peer_reported :
    Function.Injective (hashOf twoBlockPiece) ∧
    hashOf twoBlockPiece twoBlockPiece = twoBlockEnv.info.expectedHash 0 ∧
    HonestStep twoBlockEnv (fun _ => twoBlockPiece) [2] (.pieceBlock ⟨[2], [2]⟩ 0 16384 [1]) ∧
    ((TorrentSession.init twoBlockEnv (hashOf twoBlockPiece)
        { pieceStatus := [.needed], manager := .start fun _ => some (replicate 16385 0) }
        (some firstBlockReceived)).bind fun s =>
      (run twoBlockEnv (hashOf twoBlockPiece)
        [.pieceBlock ⟨[2], [2]⟩ 0 16384 [1], .finishPiece 0] ⟨s, [], []⟩).map
          (·.session.corruptReports)) = some [[2]] := by
  refine ⟨hashOf_injective _, ?_, ?_, ?_⟩
  · exact if_pos rfl
  · intro _
    exact ⟨by decide, by decide +kernel⟩
  · decide +kernel

theorem honest_not_reported_two_bytes :
    ∃ r, run twoByteEnv (hashOf [1, 2])
        [.pieceBlock ⟨[2], [2]⟩ 0 0 [1, 2], .finishPiece 0] ⟨twoBytesWanted, [], []⟩ = some r ∧
      [2] ∉ r.session.corruptReports := by
  obtain ⟨r, hrun⟩ : ∃ r, run twoByteEnv (hashOf [1, 2])
      [.pieceBlock ⟨[2], [2]⟩ 0 0 [1, 2], .finishPiece 0] ⟨twoBytesWanted, [], []⟩ = some r :=
    isSome_iff_exists.mp (by decide +kernel)
  refine ⟨r, hrun, honest_not_reported _ (hashOf [1, 2]) (fun _ => [1, 2]) ?_ [2] twoBytesWanted
    twoBytesWanted not_mem_nil none rfl _ ?_ ?_ r hrun⟩
  · intro p hp
    rw [show p = 0 from Nat.lt_one_iff.mp hp]
    decide
  · intro st hst
    rcases mem_cons.mp hst with rfl | hst
    · exact fun _ => ⟨by decide, rfl⟩
    · rw [mem_singleton.mp hst]
      trivial
  · refine ⟨?_, fun _ _ => ⟨trivial, fun _ _ => trivial⟩⟩
    -- the block covers the buffer
    intro _ p hp _ i hi
    have hlen : 2 ≤ i := by
      have hi' : ¬ (0 ≤ i ∧ i < 0 + 2) := hi
      omega
    cases hp
    show ([0, 0] : Bytes)[i]? = ([1, 2] : Bytes)[i]?
    rw [getElem?_eq_none hlen, getElem?_eq_none hlen]

end P2P
