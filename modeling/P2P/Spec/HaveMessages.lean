import P2P.Native.HaveMessages
import P2P.Spec.PieceBoard

/-!
# Which pieces peers are told of

A piece that is written between the message with our pieces and the registration of the connection
is in neither this message nor a `Have` message.
-/

namespace P2P

open List HaveStep

def HaveRun.Has (r : HaveRun) (p : Nat) : Prop := r.session.pieceStatus[p]? = some .have_

/-- A piece is written once, and not between the message with our pieces and the registration of a
    connection. -/
def HaveStep.Apart (r : HaveRun) : HaveStep → Prop
  | .pieceWritten piece => r.session.pieceStatus[piece]? ≠ some .have_ ∧
    piece < r.session.numPieces ∧ ∀ c ∈ r.conns, c.stage ≠ .sending
  | _ => True

instance HaveStep.Apart.decidable (r : HaveRun) : ∀ st, Decidable (HaveStep.Apart r st) := by
  intro st
  unfold HaveStep.Apart
  split <;> infer_instance

namespace HaveRun

variable {r r' : HaveRun} {p : Nat}

/-- A connection whose messages have been sent has been told of the pieces that are there. -/
structure Tells (r : HaveRun) (c : ToldConn) : Prop where
  sound : ∀ p ∈ c.told, r.Has p
  complete : c.stage ≠ .ended → c.failed = false → ∀ p, r.Has p → p ∈ c.told

/-- The counter is right, an index fits into a `uint32_t`, and the connections have been told. -/
structure Counted (r : HaveRun) : Prop where
  count : r.session.completedPieces = r.session.pieceStatus.count .have_
  fits : r.session.numPieces ≤ 2 ^ 32
  tells : ∀ c ∈ r.conns, r.Tells c

theorem mem_piecesTold (hcount : r.session.completedPieces = r.session.pieceStatus.count .have_)
    (fastExtension : Bool) :
    p ∈ piecesTold r.session.numPieces (r.inventoryMessage fastExtension) ↔ r.Has p := by
  have hlt : r.Has p → p < r.session.numPieces := fun h => (List.getElem?_eq_some_iff.mp h).1
  have hbits : p < r.session.numPieces → (Bitfield.get ((r.session.getHaveBitfieldStr ++
      List.replicate ((r.session.numPieces + 7) / 8) 0).take ((r.session.numPieces + 7) / 8)) p =
      true ↔ r.Has p) := by
    intro hp
    have hlen : r.session.getHaveBitfieldStr.length = (r.session.numPieces + 7) / 8 :=
      Bitfield.length_pack ..
    rw [take_left' hlen, TorrentSession.getHaveBitfieldStr, Bitfield.get_pack _ hp]
    exact decide_eq_true_iff
  have hnone : r.session.completedPieces = 0 → ¬ r.Has p := by
    intro hzero hp
    rw [hcount, count_eq_zero] at hzero
    exact hzero (mem_of_getElem? hp)
  have hall : r.session.completedPieces = r.session.numPieces → p < r.session.numPieces →
      r.Has p := by
    intro heq hp
    rw [hcount, TorrentSession.numPieces, List.count_eq_length] at heq
    exact List.getElem?_eq_some_iff.mpr ⟨hp, (heq _ (List.getElem_mem hp)).symm⟩
  have hfield : p ∈ piecesTold r.session.numPieces (some (MessageType.bitfield.toByte ::
      (r.session.getHaveBitfieldStr ++ List.replicate ((r.session.numPieces + 7) / 8) 0).take
        ((r.session.numPieces + 7) / 8))) ↔ r.Has p := by
    simp only [piecesTold, MessageType.toByte, mem_filter, mem_range]
    grind
  unfold inventoryMessage HandshakeEnv.inventoryMessage
  dsimp only
  split
  · split
    · simp only [piecesTold, MessageType.toByte]
      grind
    · split
      · simp only [piecesTold, MessageType.toByte]
        grind
      · exact hfield
  · split
    · exact hfield
    · simp only [piecesTold]
      grind

theorem Tells.written {c : ToldConn} (h : r.Tells c) (hn : r.session.numPieces ≤ 2 ^ 32)
    {piece : Nat} (hlt : piece < r.session.numPieces) (hstage : c.stage ≠ .sending)
    (conns : List ToldConn) :
    Tells { r with session := r.session.markHave piece, conns := conns } (c.sendHave piece) := by
  have hmod : piece % 2 ^ 32 = piece := Nat.mod_eq_of_lt (Nat.lt_of_lt_of_le hlt hn)
  have hhas : ∀ p, Has { r with session := r.session.markHave piece, conns := conns } p ↔
      p = piece ∨ r.Has p := by
    intro p
    simp only [Has, TorrentSession.markHave]
    grind [TorrentSession.numPieces]
  have hregistered : c.stage = .registered ∨ c.stage = .ended := by
    cases hc : c.stage <;> simp_all
  constructor
  · grind [h.sound, ToldConn.sendHave]
  · grind [h.complete, ToldConn.sendHave]

theorem Counted.set {k : Nat} {c c' : ToldConn} (h : r.Counted) (hk : r.conns[k]? = some c)
    (htold : c'.told = c.told) (hstage : c'.stage ≠ .ended → c.stage ≠ .ended)
    (hfailed : c'.failed = false → c.failed = false) :
    Counted { r with conns := r.conns.set k c' } := by
  refine ⟨h.count, h.fits, fun d hd => ?_⟩
  have htells := h.tells c (mem_of_getElem? hk)
  rcases mem_or_eq_of_mem_set hd with hold | rfl
  · exact ⟨(h.tells d hold).sound, (h.tells d hold).complete⟩
  · exact ⟨htold ▸ htells.sound, fun hopen hsent =>
      htold ▸ htells.complete (hstage hopen) (hfailed hsent)⟩

theorem Counted.step {st : HaveStep} (h : r.Counted) (hok : st.Apart r)
    (hstep : st.step r = some r') : r'.Counted := by
  cases st with
  | handshake fastExtension =>
    cases hstep
    refine ⟨h.count, h.fits, fun c hc => ?_⟩
    rcases mem_append.mp hc with hold | hnew
    · exact ⟨(h.tells c hold).sound, (h.tells c hold).complete⟩
    · rw [mem_singleton.mp hnew]
      exact ⟨fun p hp => (mem_piecesTold h.count fastExtension).mp hp,
        fun _ _ p hp => (mem_piecesTold h.count fastExtension).mpr hp⟩
  | register k added =>
    simp only [HaveStep.step] at hstep
    split at hstep
    · next told hk =>
      cases hstep
      exact h.set hk rfl (by simp) (by simp)
    · cases hstep
  | sendFails k =>
    obtain ⟨c, hk, rfl⟩ := Option.map_eq_some_iff.mp hstep
    exact h.set hk rfl (by grind) (by simp)
  | remove k =>
    obtain ⟨c, hk, rfl⟩ := Option.map_eq_some_iff.mp hstep
    exact h.set hk rfl (by simp) (by simp)
  | pieceWritten piece =>
    obtain ⟨hnew, hlt, hapart⟩ := hok
    cases hstep
    refine ⟨?_, Nat.le_trans (Nat.le_of_eq length_set) h.fits, fun c hc => ?_⟩
    · show r.session.completedPieces + 1 = (r.session.pieceStatus.set piece .have_).count .have_
      rw [PieceBoard.count_set_have hlt hnew, h.count]
    · obtain ⟨c, hold, rfl⟩ := mem_map.mp hc
      exact (h.tells c hold).written h.fits hlt (hapart c hold) _

end HaveRun

/-- In every run from a right counter whose steps meet the condition, a registered connection whose
    messages have been sent was told of exactly the pieces that are there. -/
theorem peers_told_of_pieces (env : HandshakeEnv) (session : TorrentSession)
    (hcount : session.completedPieces = session.pieceStatus.count .have_)
    (hfits : session.numPieces ≤ 2 ^ 32) (steps : List HaveStep)
    (hok : StepsMeet step HaveStep.Apart steps ⟨env, session, []⟩) (r : HaveRun)
    (hrun : run steps ⟨env, session, []⟩ = some r) (c : ToldConn) (hc : c ∈ r.conns) :
    (c.stage = .registered → c.failed = false →
      ∀ p, r.session.pieceStatus[p]? = some .have_ → p ∈ c.told) ∧
    ∀ p ∈ c.told, r.session.pieceStatus[p]? = some .have_ := by
  have hstart : HaveRun.Counted ⟨env, session, []⟩ := ⟨hcount, hfits, nofun⟩
  have h := runSteps_invariant (fun _ _ _ hok hstep h => h.step hok hstep) hok hrun hstart
  have htells := h.tells c hc
  exact ⟨fun hstage => htells.complete (by simp [hstage]), htells.sound⟩

def firstPieceRun : HaveRun where
  env := ⟨id, ⟨List.replicate 96 0, fun _ => [], rfl⟩, [], [], false, false, 0, 0, []⟩
  session :=
    { pieceStatus := [.have_, .needed], completedPieces := 1, manager := { disk := fun _ => none } }

theorem peers_told_of_pieces_both :
    ∃ r, run [.handshake true, .register 0 true, .pieceWritten 1] firstPieceRun = some r ∧
      r.conns = [⟨.registered, false, [1, 0]⟩] ∧
      ∀ p, r.session.pieceStatus[p]? = some .have_ → p ∈ [1, 0] := by
  let steps : List HaveStep := [.handshake true, .register 0 true, .pieceWritten 1]
  let r := (run steps firstPieceRun).get (by decide +kernel)
  have hconns : r.conns = [⟨.registered, false, [1, 0]⟩] := by decide +kernel
  have htold := peers_told_of_pieces firstPieceRun.env firstPieceRun.session (by decide) (by decide)
    steps (by decide +kernel) r (Option.some_get _).symm ⟨.registered, false, [1, 0]⟩
    (by rw [hconns]; simp)
  exact ⟨r, (Option.some_get _).symm, hconns, htold.1 rfl rfl⟩

/-- The second piece is written after the message with our pieces was made and before the connection
    is registered, and the peer is never told of it. -/
theorem piece_not_told :
    (run [.handshake true, .pieceWritten 1, .register 0 true] firstPieceRun).map
        (fun r => (r.session.pieceStatus, r.conns)) =
      some ([.have_, .have_], [⟨.registered, false, [0]⟩]) := by
  decide +kernel

end P2P
