import P2P.Spec.MetadataAssembly

/-!
# A second attempt to get the metadata

When `on_metadata_complete` cannot load what is in the buffer, it ends the download.
-/

namespace P2P

open Bencode List Option MagnetSession

variable {sha1 : Bytes → Bytes} {allocates : UInt64 → Bool} {b : Bytes} {s s' : MagnetSession}

theorem SessionState.loadMetadata_hash {st : SessionState}
    (hok : (st.loadMetadata sha1 b).1 = .ok ()) (hne : st.metaInfo.infoHashBytes ≠ []) :
    sha1 b = st.metaInfo.infoHashBytes ∧
      (st.loadMetadata sha1 b).2.metaInfo.infoHashBytes = st.metaInfo.infoHashBytes := by
  by_cases hdict : ∃ d, decode b = .ok (.dict d)
  · obtain ⟨d, hdec⟩ := hdict
    unfold loadMetadata at hok ⊢
    rw [loadFromInfoBytes_dict hdec] at hok ⊢
    cases hres : caught ((populateTorrentInfoFromDict d).run.run {}).1 with
    | none => rw [hres] at hok; exact nomatch hok
    | some loaded =>
      rw [hres] at hok
      cases loaded with
      | false => cases hok
      | true =>
        dsimp only at hok ⊢
        split at hok
        · cases hok
        · next hsame =>
          rw [if_neg hsame]
          have heq : st.metaInfo.infoHashBytes = sha1 b := by
            by_contra hdiff
            exact hsame ⟨by simpa using hne, hdiff⟩
          exact ⟨heq.symm, heq.symm⟩
  · rw [loadMetadata_other (not_exists.mp hdict)] at hok
    cases hok

/-- The session waits for a dictionary with the hash of `b`; without a size the buffer is empty. -/
structure MagnetInv (sha1 : Bytes → Bytes) (b : Bytes) (s : MagnetSession) : Prop where
  hash : s.metadataDownloadActive = true → s.state.metaInfo.infoHashBytes = sha1 b
  unsized : s.metadataBufferInitFlag = false → s.metadataBuffer = [] ∧ s.metadataPiecesReceived = 0

theorem MagnetInv.of_endDownload (s : MagnetSession) : MagnetInv sha1 b s.endDownload :=
  ⟨nofun, fun _ => ⟨rfl, rfl⟩⟩

section

variable (hne : sha1 b ≠ []) (h : MagnetInv sha1 b s)

include hne h

theorem MagnetInv.onMetadataComplete (hstep : s.onMetadataComplete sha1 = some s') :
    MagnetInv sha1 b s' := by
  rcases onMetadataComplete_cases hstep with ⟨state, rfl⟩ | ⟨u, state, hload, rfl⟩
  · exact .of_endDownload _
  · refine ⟨fun hactive => ?_, h.unsized⟩
    have hexpected := h.hash hactive
    have hkeep := SessionState.loadMetadata_hash (congrArg Prod.fst hload) (by rwa [hexpected])
    rw [hload] at hkeep
    exact hkeep.2.trans hexpected

theorem MagnetInv.onMessage {extId : UInt8} {payload : Bytes}
    (hstep : s.onMessage sha1 allocates extId payload = some s') : MagnetInv sha1 b s' := by
  cases hactive : s.metadataDownloadActive with
  | false =>
    rw [onMessage_inactive hactive] at hstep
    cases hstep
    exact h
  | true =>
    -- what the handler leaves of the session
    have hinv : MagnetInv sha1 b
      (s.withMetadata (s.metadata.handle allocates extId payload).2) := by
      refine ⟨fun _ => h.hash hactive, fun hflag => ?_⟩
      have hsame := handle_unsized allocates extId hflag
      rw [hsame]
      rw [hsame] at hflag
      exact h.unsized hflag
    unfold MagnetSession.onMessage at hstep
    split at hstep
    · cases hstep
    · next m hm =>
      rw [hm] at hinv
      exact hinv.onMetadataComplete hne hstep
    · next m _ _ hm =>
      rw [hm] at hinv
      rw [← some.inj hstep]
      exact hinv

theorem magnet_step {st : MagnetStep} (hstep : st.step sha1 allocates s = some s') :
    MagnetInv sha1 b s' := by
  cases st with
  | request conn =>
    rw [MagnetStep.step_request_some hstep]
    cases request_cases allocates s conn with
    | inl hsame =>
      rw [hsame]
      exact h
    | inr hnew =>
      rw [hnew.2.2.2]
      exact ⟨h.hash, nofun⟩
  | message extId payload => exact h.onMessage hne hstep
  | prepare | giveUp =>
    obtain ⟨-, heq⟩ := ite_none_right_eq_some.mp hstep
    cases heq
    exact ⟨h.hash, h.unsized⟩
  | finish =>
    obtain ⟨-, heq⟩ := ite_none_right_eq_some.mp hstep
    cases heq
    exact .of_endDownload _

end

theorem magnet_run (hne : sha1 b ≠ []) {mode : Mode} {tiers : List (List Bytes)}
    {steps : List MagnetStep}
    (hrun : MagnetStep.run sha1 allocates steps (.createFromMagnet mode (sha1 b) tiers) = some s) :
    MagnetInv sha1 b s :=
  runSteps_invariant (fun _ _ _ _ hstep h => magnet_step hne h hstep)
    (StepsMeet.of_forall (p := fun _ => True) (fun _ _ => trivial) _) hrun
    ⟨fun _ => rfl, fun _ => ⟨rfl, rfl⟩⟩

def deliver (sha1 : Bytes → Bytes) (allocates : UInt64 → Bool) (extId : UInt8)
    (payloads : List Bytes) (s : MagnetSession) : Option MagnetSession :=
  MagnetStep.run sha1 allocates (payloads.map (.message extId)) s

structure HoldsMetadata (sha1 : Bytes → Bytes) (b : Bytes) (d : Dict)
    (s : MagnetSession) : Prop where
  metaInfo : s.state.metaInfo = ⟨populated d, sha1 b, b⟩
  numPieces : s.state.numPieces = (populated d).numPieces

/-- `on_metadata_complete` is called with `b` while the messages arrive, and the session has the
    dictionary then. -/
def Recovers (sha1 : Bytes → Bytes) (allocates : UInt64 → Bool) (extId : UInt8) (b : Bytes)
    (d : Dict) (payloads : List Bytes) (s : MagnetSession) : Prop :=
  ∃ s' new, deliver sha1 allocates extId payloads s = some s' ∧
    s'.completions = new ++ s.completions ∧ b ∈ new ∧ HoldsMetadata sha1 b d s'

section Deliver

variable {extId : UInt8} {d : Dict} {ps : List Nat} {p : Nat} {payload : Bytes}
  {payloads : List Bytes}

theorem deliver_cons :
    deliver sha1 allocates extId (payload :: payloads) s =
      (s.onMessage sha1 allocates extId payload).bind (deliver sha1 allocates extId payloads) :=
  rfl

theorem deliver_inactive (hactive : s.metadataDownloadActive = false) :
    deliver sha1 allocates extId payloads s = some s := by
  induction payloads with
  | nil => rfl
  | cons payload payloads ih =>
    rw [deliver_cons, onMessage_inactive hactive, bind_some, ih]

structure Sized (sha1 : Bytes → Bytes) (b : Bytes) (s : MagnetSession) : Prop where
  active : s.metadataDownloadActive = true
  flag : s.metadataBufferInitFlag = true
  length : s.metadataBuffer.length = b.length
  hash : s.state.metaInfo.infoHashBytes = sha1 b

theorem Sized.accept (h : Sized sha1 b s) (hp : p < metadataPieces b) :
    Sized sha1 b (s.accept b p) :=
  ⟨h.active, h.flag, length_receivePiece h.length hp, h.hash⟩

theorem Sized.onMetadataComplete (hdec : decode b = .ok (.dict d)) (hpop : Populates d)
    (h : Sized sha1 b s) (hbuf : s.metadataBuffer = b) {rest : MagnetSession → Option MagnetSession}
    (hrest : ∀ {s₁}, Sized sha1 b s₁ → s₁.metadataBuffer = b → HoldsMetadata sha1 b d s₁ →
      ∃ s' new, rest s₁ = some s' ∧ s'.completions = new ++ s₁.completions ∧
        HoldsMetadata sha1 b d s') :
    ∃ s' new, (s.onMetadataComplete sha1).bind rest = some s' ∧
      s'.completions = new ++ [b] ++ s.completions ∧ HoldsMetadata sha1 b d s' := by
  obtain ⟨s₁, hs₁, hnew₁, hbuf₁, h₁, hheld₁⟩ : ∃ s₁, s.onMetadataComplete sha1 = some s₁ ∧
      s₁.completions = b :: s.completions ∧ s₁.metadataBuffer = b ∧ Sized sha1 b s₁ ∧
      HoldsMetadata sha1 b d s₁ := by
    have hload := SessionState.loadMetadata_ok hdec hpop s.state h.hash
    rw [onMetadataComplete_ok (hbuf ▸ hload), hbuf]
    exact ⟨_, rfl, rfl, rfl, ⟨h.active, h.flag, rfl, rfl⟩, rfl, rfl⟩
  obtain ⟨s', new, hs', hnew, hheld⟩ := hrest h₁ hbuf₁ hheld₁
  refine ⟨s', new, ?_, ?_, hheld⟩
  · rw [hs₁, bind_some, hs']
  · rw [hnew, hnew₁, append_assoc]
    rfl

theorem Sized.onMetadataComplete_wrong (hne : sha1 b ≠ [])
    (hcollision : ∀ b', sha1 b' = sha1 b → b' = b) (h : Sized sha1 b s)
    (hbuf : s.metadataBuffer ≠ b) (hstep : s.onMetadataComplete sha1 = some s') :
    s'.completions = s.metadataBuffer :: s.completions ∧ s'.metadataDownloadActive = false := by
  refine ⟨(onMetadataComplete_some hstep).1, ?_⟩
  rcases onMetadataComplete_cases hstep with ⟨state, rfl⟩ | ⟨u, state, hload, rfl⟩
  · rfl
  · have hsame := SessionState.loadMetadata_hash (congrArg Prod.fst hload) (by rwa [h.hash])
    exact absurd (hcollision _ (hsame.1.trans h.hash)) hbuf

theorem not_recovers (hrun : deliver sha1 allocates extId payloads s = some s')
    (hsame : s'.completions = s.completions) : ¬ Recovers sha1 allocates extId b d payloads s := by
  rintro ⟨s₁, new, hs₁, hnew, hmem, -⟩
  rw [hrun] at hs₁
  rw [← some.inj hs₁, hsame, self_eq_append_left] at hnew
  rw [hnew] at hmem
  cases hmem

def messagesLeft (b : Bytes) (s : MagnetSession) : Nat :=
  max 1 (metadataPieces b - s.metadataPiecesReceived.toNat)

@[simp] theorem received_accept (s : MagnetSession) (b : Bytes) (p : Nat) :
    (s.accept b p).metadataPiecesReceived = s.metadataPiecesReceived + 1 := rfl

theorem toNat_received_accept (hcount : s.metadataPiecesReceived.toNat + 1 < 2 ^ 64) :
    (s.metadataPiecesReceived + 1).toNat = s.metadataPiecesReceived.toNat + 1 := by
  rw [UInt64.toNat_add, show (1 : UInt64).toNat = 1 from rfl]
  omega

theorem messagesLeft_eq_one (hlast : metadataPieces b ≤ s.metadataPiecesReceived.toNat + 1) :
    messagesLeft b s = 1 := by
  unfold messagesLeft
  omega

theorem messagesLeft_accept (hcount : s.metadataPiecesReceived.toNat + 1 < 2 ^ 64)
    (hmore : s.metadataPiecesReceived.toNat + 1 < metadataPieces b) :
    messagesLeft b s = messagesLeft b (s.accept b p) + 1 := by
  unfold messagesLeft
  rw [received_accept, toNat_received_accept hcount]
  omega

theorem deliver_length (hflag : s.metadataBufferInitFlag = true)
    (hrun : deliver sha1 allocates extId payloads s = some s') :
    ∃ new, s'.completions = new ++ s.completions ∧
      ∀ buf ∈ new, buf.length = s.metadataBuffer.length := by
  induction payloads generalizing s with
  | nil => exact ⟨[], by rw [← some.inj hrun]; rfl, nofun⟩
  | cons payload payloads ih =>
    rw [deliver_cons] at hrun
    obtain ⟨s₁, hs₁, hrun⟩ := bind_eq_some_iff.mp hrun
    obtain ⟨hflag₁, ⟨new₁, hnew₁, hlen₁⟩, hkeep⟩ := onMessage_length hflag hs₁
    cases hactive : s₁.metadataDownloadActive with
    | false =>
      rw [deliver_inactive hactive] at hrun
      rw [← some.inj hrun]
      exact ⟨new₁, hnew₁, hlen₁⟩
    | true =>
      obtain ⟨new, hnew, hlen⟩ := ih hflag₁ hrun
      refine ⟨new ++ new₁, by rw [hnew, hnew₁, append_assoc], fun buf hbuf => ?_⟩
      cases mem_append.mp hbuf with
      | inl hmem => exact (hlen buf hmem).trans (hkeep hactive)
      | inr hmem => exact hlen₁ buf hmem

section

variable (hb : b.length < 2 ^ 63)

include hb

theorem count_accept (hmore : s.metadataPiecesReceived.toNat + 1 < metadataPieces b) :
    (s.accept b p).metadataPiecesReceived.toNat + 1 < 2 ^ 64 := by
  have hpieces : metadataPieces b < 2 ^ 63 := by unfold metadataPieces; omega
  rw [received_accept, toNat_received_accept (by omega)]
  omega

section Sized

variable (h : Sized sha1 b s)

include h

theorem Sized.deliver_cons (hmsg : HonestMessage b p payload) :
    deliver sha1 allocates extId (payload :: payloads) s =
      (if metadataPieces b ≤ (s.metadataPiecesReceived + 1).toNat then
        (s.accept b p).onMetadataComplete sha1
      else some (s.accept b p)).bind (deliver sha1 allocates extId payloads) := by
  rw [P2P.deliver_cons, onMessage_honest hb h.flag h.active h.length hmsg]

variable (hmsgs : Forall₂ (HonestMessage b) ps payloads)

include hmsgs

theorem deliver_waiting (allocates : UInt64 → Bool) (extId : UInt8)
    (hfew : s.metadataPiecesReceived.toNat + ps.length < metadataPieces b) :
    ∃ s', deliver sha1 allocates extId payloads s = some s' ∧ s'.completions = s.completions := by
  induction hmsgs generalizing s with
  | nil => exact ⟨s, rfl, rfl⟩
  | cons hmsg hmsgs ih =>
    next p payload ps payloads =>
    rw [length_cons] at hfew
    have hpieces : metadataPieces b < 2 ^ 63 := by unfold metadataPieces; omega
    have hcount' := toNat_received_accept (s := s) (by omega)
    rw [h.deliver_cons hb hmsg, hcount', if_neg (by omega), bind_some]
    apply ih (h.accept hmsg.1)
    rw [received_accept, hcount']
    omega

theorem deliver_wrapped (hfew : ps.length ≤ metadataPieces b)
    (hcount : s.metadataPiecesReceived.toNat + 1 = 2 ^ 64) :
    ¬ Recovers sha1 allocates extId b d payloads s := by
  cases hmsgs with
  | nil => exact not_recovers rfl rfl
  | cons hmsg hmsgs =>
    next p payload ps payloads =>
    have hwrap : (s.metadataPiecesReceived + 1).toNat = 0 := by
      rw [UInt64.toNat_add, show (1 : UInt64).toNat = 1 from rfl, hcount, Nat.mod_self]
    have hrest : (s.accept b p).metadataPiecesReceived.toNat + ps.length < metadataPieces b := by
      rw [received_accept, hwrap, Nat.zero_add]
      exact hfew
    obtain ⟨s', hs', hsame⟩ := deliver_waiting hb (h.accept hmsg.1) hmsgs allocates extId hrest
    have hrun : deliver sha1 allocates extId (payload :: payloads) s = some s' := by
      rw [h.deliver_cons hb hmsg, hwrap, if_neg (by omega), bind_some, hs']
    exact not_recovers hrun hsame

theorem deliver_incomplete (hne : sha1 b ≠ []) (hcollision : ∀ b', sha1 b' = sha1 b → b' = b)
    (hcount : s.metadataPiecesReceived.toNat + 1 < 2 ^ 64)
    (hall : assemble b (ps.take (messagesLeft b s)) s.metadataBuffer ≠ b) :
    ¬ Recovers sha1 allocates extId b d payloads s := by
  induction hmsgs generalizing s with
  | nil => exact not_recovers rfl rfl
  | cons hmsg hmsgs ih =>
    next p payload ps payloads =>
    unfold Recovers
    rw [h.deliver_cons hb hmsg, toNat_received_accept hcount]
    split
    · next hlast =>
      rw [messagesLeft_eq_one hlast] at hall
      rintro ⟨s', new, hs', hnew, hmem, -⟩
      obtain ⟨s₁, hs₁, hs'⟩ := bind_eq_some_iff.mp hs'
      -- the call fails, and the other messages are ignored
      obtain ⟨hnew₁, hactive₁⟩ :=
        (h.accept hmsg.1).onMetadataComplete_wrong hne hcollision hall hs₁
      rw [deliver_inactive hactive₁] at hs'
      rw [← some.inj hs', hnew₁, ← singleton_append,
        show (s.accept b p).completions = s.completions from rfl] at hnew
      rw [← append_cancel_right hnew, mem_singleton] at hmem
      exact hall hmem.symm
    · next hmore =>
      rw [messagesLeft_accept hcount (Nat.not_le.mp hmore)] at hall
      exact ih (h.accept hmsg.1) (count_accept hb (Nat.not_le.mp hmore)) hall

variable (hdec : decode b = .ok (.dict d)) (hpop : Populates d)

include hdec hpop

theorem deliver_loaded (hbuf : s.metadataBuffer = b) (hheld : HoldsMetadata sha1 b d s) :
    ∃ s' new, deliver sha1 allocates extId payloads s = some s' ∧
      s'.completions = new ++ s.completions ∧ HoldsMetadata sha1 b d s' := by
  induction hmsgs generalizing s with
  | nil => exact ⟨s, [], rfl, rfl, hheld⟩
  | cons hmsg hmsgs ih =>
    next p payload ps payloads =>
    have hsame : (s.accept b p).metadataBuffer = b := by
      show receivePiece b s.metadataBuffer p = b
      rw [hbuf, receivePiece_self hmsg.1]
    rw [h.deliver_cons hb hmsg]
    split
    · -- the dictionary is loaded once more
      obtain ⟨s', new, hs', hnew, hheld'⟩ := (h.accept hmsg.1).onMetadataComplete hdec hpop hsame ih
      exact ⟨s', _, hs', hnew, hheld'⟩
    · exact ih (h.accept hmsg.1) hsame ⟨hheld.metaInfo, hheld.numPieces⟩

theorem deliver_complete (hcount : s.metadataPiecesReceived.toNat + 1 < 2 ^ 64)
    (henough : messagesLeft b s ≤ ps.length)
    (hall : assemble b (ps.take (messagesLeft b s)) s.metadataBuffer = b) :
    Recovers sha1 allocates extId b d payloads s := by
  induction hmsgs generalizing s with
  | nil =>
    unfold messagesLeft at henough
    simp only [length_nil] at henough
    omega
  | cons hmsg hmsgs ih =>
    next p payload ps payloads =>
    unfold Recovers
    rw [h.deliver_cons hb hmsg, toNat_received_accept hcount]
    split
    · next hlast =>
      rw [messagesLeft_eq_one hlast] at hall
      obtain ⟨s', new, hs', hnew, hheld⟩ := (h.accept hmsg.1).onMetadataComplete hdec hpop hall
        fun h₁ => deliver_loaded hb h₁ hmsgs hdec hpop
      exact ⟨s', _, hs', hnew, mem_append_right _ (mem_singleton.mpr rfl), hheld⟩
    · next hmore =>
      rw [messagesLeft_accept hcount (Nat.not_le.mp hmore)] at henough hall
      exact ih (h.accept hmsg.1) (count_accept hb (Nat.not_le.mp hmore))
        (Nat.le_of_succ_le_succ henough) hall

theorem recovers_sized (allocates : UInt64 → Bool) (extId : UInt8) (hne : sha1 b ≠ [])
    (hpos : 0 < metadataPieces b)
    (hlength : ps.length = metadataPieces b) (hbound : ∀ p ∈ ps, p < metadataPieces b) :
    (s.metadataPiecesReceived.toNat + 1 < 2 ^ 64 ∧
        (∀ i < metadataPieces b, i ∈ ps.take (messagesLeft b s) ∨
          metadataSlice s.metadataBuffer i = metadataSlice b i) →
      Recovers sha1 allocates extId b d payloads s) ∧
    ((∀ b', sha1 b' = sha1 b → b' = b) → Recovers sha1 allocates extId b d payloads s →
      s.metadataPiecesReceived.toNat + 1 < 2 ^ 64 ∧
        ∀ i < metadataPieces b, i ∈ ps.take (messagesLeft b s) ∨
          metadataSlice s.metadataBuffer i = metadataSlice b i) := by
  have htake : ∀ p ∈ ps.take (messagesLeft b s), p < metadataPieces b :=
    fun p hp => hbound p (mem_of_mem_take hp)
  rw [← assemble_eq_iff h.length htake]
  constructor
  · rintro ⟨hcount, hall⟩
    apply deliver_complete hb h hmsgs hdec hpop hcount _ hall
    unfold messagesLeft
    omega
  · intro hcollision hrec
    have hcount : s.metadataPiecesReceived.toNat + 1 < 2 ^ 64 := by
      by_contra hwrap
      have hlt := s.metadataPiecesReceived.toNat_lt
      exact deliver_wrapped hb h hmsgs hlength.le (by omega) hrec
    refine ⟨hcount, ?_⟩
    by_contra hall
    exact deliver_incomplete hb h hmsgs hne hcollision hcount hall hrec

end Sized

variable (hactive : s.metadataDownloadActive = true) (hflag : s.metadataBufferInitFlag = false)

include hactive hflag

theorem deliver_noMemory (hbuf : s.metadataBuffer = [])
    (halloc : allocates (UInt64.ofNat b.length) = false)
    (hmsgs : Forall₂ (HonestMessage b) ps payloads) :
    deliver sha1 allocates extId payloads s = some s := by
  induction hmsgs with
  | nil => rfl
  | cons hmsg hmsgs ih =>
    rw [deliver_cons, onMessage_honest_first hb hflag hactive hbuf hmsg,
      if_neg (by rw [halloc]; exact nofun), bind_some, ih]

theorem deliver_resized (hbuf : s.metadataBuffer = [])
    (halloc : allocates (UInt64.ofNat b.length) = true) (hmsg : HonestMessage b p payload) :
    deliver sha1 allocates extId (payload :: payloads) s =
      deliver sha1 allocates extId (payload :: payloads) (s.resized b) := by
  rw [deliver_cons, deliver_cons, onMessage_honest_first hb hflag hactive hbuf hmsg, if_pos halloc]

theorem recovers_unsized (hdec : decode b = .ok (.dict d)) (hpop : Populates d)
    (hinv : MagnetInv sha1 b s) (halloc : allocates (UInt64.ofNat b.length) = true)
    (hmsgs : Forall₂ (HonestMessage b) ps payloads) (hpos : 0 < metadataPieces b)
    (hlength : ps.length = metadataPieces b) (hmem : ∀ p, p ∈ ps ↔ p < metadataPieces b) :
    Recovers sha1 allocates extId b d payloads s := by
  obtain ⟨hbuf, hcount⟩ := hinv.unsized hflag
  have hsized : Sized sha1 b (s.resized b) :=
    ⟨hactive, rfl, length_replicate, hinv.hash hactive⟩
  have hcount' : (s.resized b).metadataPiecesReceived.toNat = 0 := congrArg UInt64.toNat hcount
  have hleft : messagesLeft b (s.resized b) = ps.length := by
    rw [messagesLeft, hcount']
    omega
  have hrec : Recovers sha1 allocates extId b d payloads (s.resized b) := by
    apply deliver_complete hb hsized hmsgs hdec hpop
    · rw [hcount']; decide
    · exact hleft.le
    · rw [hleft, take_length]
      exact (assemble_eq_iff hsized.length fun p hp => (hmem p).mp hp).mpr
        fun i hi => .inl ((hmem i).mpr hi)
  cases hmsgs with
  | nil => exact absurd hlength (Nat.ne_of_lt hpos)
  | cons hmsg hmsgs =>
    obtain ⟨s', new, hs', hnew⟩ := hrec
    exact ⟨s', new, (deliver_resized hb hactive hflag hbuf halloc hmsg).trans hs', hnew⟩

end

end Deliver

/-- The download has not ended, and the buffer has no size yet and can be given one; or it has the
    right one, and the messages before the next call of `on_metadata_complete` bring all pieces that
    are wrong. -/
def Recoverable (allocates : UInt64 → Bool) (b : Bytes) (ps : List Nat)
    (s : MagnetSession) : Prop :=
  s.metadataDownloadActive = true ∧
    if s.metadataBufferInitFlag then
      s.metadataBuffer.length = b.length ∧ s.metadataPiecesReceived.toNat + 1 < 2 ^ 64 ∧
        ∀ i < metadataPieces b,
          i ∈ ps.take (messagesLeft b s) ∨ metadataSlice s.metadataBuffer i = metadataSlice b i
    else allocates (UInt64.ofNat b.length) = true

/-- After any run, an honest peer sends all pieces of the info dictionary. -/
theorem metadata_recovers_iff (sha1 : Bytes → Bytes) (allocates : UInt64 → Bool) (mode : Mode)
    (tiers : List (List Bytes)) (b : Bytes) (d : Dict) (hb : b.length < 2 ^ 63)
    (hdec : decode b = .ok (.dict d)) (hpop : Populates d) (hne : sha1 b ≠ [])
    (steps : List MagnetStep) (s : MagnetSession)
    (hrun : MagnetStep.run sha1 allocates steps (.createFromMagnet mode (sha1 b) tiers) = some s)
    (extId : UInt8) (ps : List Nat) (payloads : List Bytes)
    (hps : ps.Perm (List.range (metadataPieces b)))
    (hmsgs : List.Forall₂ (HonestMessage b) ps payloads) :
    (Recoverable allocates b ps s → Recovers sha1 allocates extId b d payloads s) ∧
      ((∀ b', sha1 b' = sha1 b → b' = b) →
        Recovers sha1 allocates extId b d payloads s → Recoverable allocates b ps s) := by
  have hinv := magnet_run hne hrun
  have hlength : ps.length = metadataPieces b := by rw [hps.length_eq, length_range]
  have hmem : ∀ p, p ∈ ps ↔ p < metadataPieces b := fun p => hps.mem_iff.trans mem_range
  have hpos : 0 < metadataPieces b := by
    rw [lt_metadataPieces_iff, Nat.zero_mul]
    apply length_pos_of_ne_nil
    rintro rfl
    exact nomatch getLast?_of_decode_dict hdec
  unfold Recoverable
  cases hactive : s.metadataDownloadActive with
  | false =>
    refine ⟨fun hcan => absurd hcan.1 Bool.false_ne_true, fun _ hrec => ?_⟩
    exact absurd hrec (not_recovers (deliver_inactive hactive) rfl)
  | true =>
    cases hflag : s.metadataBufferInitFlag with
    | false =>
      rw [if_neg Bool.false_ne_true]
      cases halloc : allocates (UInt64.ofNat b.length) with
      | false =>
        refine ⟨fun hcan => absurd hcan.2 Bool.false_ne_true, fun _ hrec => ?_⟩
        exact absurd hrec (not_recovers
          (deliver_noMemory hb hactive hflag (hinv.unsized hflag).1 halloc hmsgs) rfl)
      | true =>
        refine ⟨fun _ => ?_, fun _ _ => ⟨rfl, rfl⟩⟩
        exact recovers_unsized hb hactive hflag hdec hpop hinv halloc hmsgs hpos hlength hmem
    | true =>
      rw [if_pos rfl]
      by_cases hlen : s.metadataBuffer.length = b.length
      · have hsized : Sized sha1 b s := ⟨hactive, hflag, hlen, hinv.hash hactive⟩
        have hiff := recovers_sized hb hsized hmsgs hdec hpop allocates extId hne hpos hlength
          fun p hp => (hmem p).mp hp
        exact ⟨fun hcan => hiff.1 hcan.2.2,
          fun hcollision hrec => ⟨rfl, hlen, hiff.2 hcollision hrec⟩⟩
      · -- no call can have the right buffer
        refine ⟨fun hcan => absurd hcan.2.1 hlen, fun _ hrec => ?_⟩
        obtain ⟨s', new, hs', hnew, hmem, -⟩ := hrec
        obtain ⟨new', hnew', hlen'⟩ := deliver_length hflag hs'
        rw [append_cancel_right (hnew.symm.trans hnew')] at hmem
        exact absurd (hlen' b hmem).symm hlen

def shortInfo : Bytes := encode (.dict shortDict)

theorem decode_shortInfo : decode shortInfo = .ok (.dict shortDict) := by
  apply decode_encode
  rw [Value.WF]
  constructor
  · unfold shortDict Assoc.Sorted
    decide
  · simp only [shortDict, Value.WFEntries, Value.WF]
    decide

theorem honest_shortInfo : HonestMessage shortInfo 0 (metadataData shortInfo 0) :=
  honest_metadataData (by decide +kernel) (by decide +kernel)

/-- A bad peer names the size and sends a piece that does not fit, which is refused. -/
def pieceRefused : List MagnetStep :=
  [.message 3 (metadataMessage 1 (.ofNat shortInfo.length) [0])]

theorem metadata_recovers_refused :
    ∃ s, MagnetStep.run id (fun _ => true) pieceRefused (.createFromMagnet .leech shortInfo []) =
        some s ∧
      Recovers id (fun _ => true) 3 shortInfo shortDict [metadataData shortInfo 0] s := by
  have hrun := Option.some_get (x := MagnetStep.run id (fun _ => true) pieceRefused
    (.createFromMagnet .leech shortInfo [])) (by decide +kernel)
  refine ⟨_, hrun.symm, (metadata_recovers_iff id (fun _ => true) .leech [] shortInfo shortDict
    (by decide +kernel) decode_shortInfo rfl (by decide +kernel) pieceRefused _ hrun.symm 3 [0] _
    ?_ (.cons honest_shortInfo .nil)).1 ?_⟩
  · rw [show metadataPieces shortInfo = 1 by decide +kernel]
    decide
  · unfold Recoverable
    decide +kernel

/-- A bad peer sends one byte that is no bencoding, and the session ends its download. -/
theorem metadata_not_recovered :
    (loadFromInfoBytes id shortInfo {}).1 = some true ∧
    HonestMessage shortInfo 0 (metadataData shortInfo 0) ∧
    ((MagnetStep.run id (fun _ => true) [.message 3 (metadataData (Bytes.ascii "x") 0)]
        (.createFromMagnet .leech shortInfo [])).bind
      (deliver id (fun _ => true) 3 [metadataData shortInfo 0])).map
        (fun s => (s.completions, s.state.hasMetadata)) = some ([Bytes.ascii "x"], false) ∧
    ((MagnetStep.run id (fun _ => true) [.message 3 (metadataMessage 1 1 (Bytes.ascii "x"))]
        (.createFromMagnet .leech shortInfo [])).bind
      (deliver id (fun _ => true) 3 [metadataData shortInfo 0])).map
        (fun s => (s.completions, s.state.hasMetadata)) = some ([], false) := by
  refine ⟨by decide +kernel, honest_shortInfo, by decide +kernel, by decide +kernel⟩

end P2P
