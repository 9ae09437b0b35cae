import P2P.Native.Magnet
import P2P.Spec.MetadataBuffer
import P2P.Spec.MetadataLoad

/-!
# Metadata from several peers

Every peer is asked for every piece of the info dictionary, and the session counts the messages that
it accepts.
-/

namespace P2P

open Bencode MagnetStep MagnetSession Int64 List Option Bytes

/-! ## The pieces of the info dictionary -/

def metadataPieces (b : Bytes) : Nat := (b.length + 16383) / 16384

def metadataSlice (b : Bytes) (p : Nat) : Bytes := b.slice (p * 16384) 16384

def receivePiece (b buf : Bytes) (p : Nat) : Bytes :=
  buf.overwrite 0 (p * 16384) (metadataSlice b p)

def assemble (b : Bytes) (ps : List Nat) (buf : Bytes) : Bytes := ps.foldl (receivePiece b) buf

section Assemble

variable {b buf : Bytes} {p : Nat}

theorem lt_metadataPieces_iff : p < metadataPieces b ↔ p * 16384 < b.length := by
  unfold metadataPieces
  omega

theorem length_metadataSlice (hp : p < metadataPieces b) :
    p * 16384 + (metadataSlice b p).length = min ((p + 1) * 16384) b.length := by
  have := lt_metadataPieces_iff.mp hp
  rw [metadataSlice, length_slice]
  omega

theorem getElem?_metadataSlice (i : Nat) :
    (metadataSlice b p)[i]? = if i < 16384 then b[p * 16384 + i]? else none :=
  getElem?_slice b (p * 16384) 16384 i

theorem length_receivePiece (hlen : buf.length = b.length) (hp : p < metadataPieces b) :
    (receivePiece b buf p).length = b.length := by
  have := length_metadataSlice hp
  rw [receivePiece, length_overwrite 0 _ (by omega), hlen]

theorem getElem?_receivePiece (hlen : buf.length = b.length) (hp : p < metadataPieces b)
    (j : Nat) : (receivePiece b buf p)[j]? = if j / 16384 = p then b[j]? else buf[j]? := by
  have hslice := length_metadataSlice hp
  rw [receivePiece, getElem?_overwrite 0 _ (by omega)]
  by_cases hj : j / 16384 = p
  · rw [if_pos hj]
    by_cases hin : j < b.length
    · rw [if_pos (by omega), getElem?_metadataSlice, if_pos (by omega),
        Nat.add_sub_cancel' (by omega)]
    · -- behind the end of both
      rw [if_neg (by omega), getElem?_eq_none (by omega), getElem?_eq_none (by omega)]
  · rw [if_neg hj, if_neg (by omega)]

variable {ps : List Nat}

section

variable (hlen : buf.length = b.length) (hps : ∀ p ∈ ps, p < metadataPieces b)

include hlen hps

theorem length_assemble : (assemble b ps buf).length = b.length := by
  induction ps generalizing buf with
  | nil => exact hlen
  | cons p ps ih =>
    exact ih (length_receivePiece hlen (hps p (mem_cons_self ..)))
      fun q hq => hps q (mem_cons_of_mem _ hq)

theorem getElem?_assemble (j : Nat) :
    (assemble b ps buf)[j]? = if j / 16384 ∈ ps then b[j]? else buf[j]? := by
  induction ps generalizing buf with
  | nil => rw [if_neg not_mem_nil]; rfl
  | cons p ps ih =>
    have hp := hps p (mem_cons_self ..)
    have hrest := ih (length_receivePiece hlen hp) fun q hq => hps q (mem_cons_of_mem _ hq)
    rw [show assemble b (p :: ps) buf = assemble b ps (receivePiece b buf p) from rfl, hrest,
      getElem?_receivePiece hlen hp]
    by_cases hmem : j / 16384 ∈ ps
    · rw [if_pos hmem, if_pos (mem_cons_of_mem _ hmem)]
    · rw [if_neg hmem]
      simp only [mem_cons, hmem, or_false]

theorem assemble_eq_iff :
    assemble b ps buf = b ↔
      ∀ i < metadataPieces b, i ∈ ps ∨ metadataSlice buf i = metadataSlice b i := by
  constructor
  · intro heq i hi
    by_cases hmem : i ∈ ps
    · exact .inl hmem
    · right
      apply ext_getElem?
      intro j
      rw [getElem?_metadataSlice, getElem?_metadataSlice]
      by_cases hj : j < 16384
      · have hpos := getElem?_assemble hlen hps (i * 16384 + j)
        rw [heq, if_neg (by rwa [show (i * 16384 + j) / 16384 = i by omega])] at hpos
        rw [if_pos hj, if_pos hj, hpos]
      · rw [if_neg hj, if_neg hj]
  · intro hall
    apply ext_getElem?
    intro j
    rw [getElem?_assemble hlen hps]
    by_cases hmem : j / 16384 ∈ ps
    · rw [if_pos hmem]
    · rw [if_neg hmem]
      by_cases hi : j / 16384 < metadataPieces b
      · -- the piece did not arrive, so it was right before
        have hslice := congrArg (·[j % 16384]?) ((hall _ hi).resolve_left hmem)
        simp only [getElem?_metadataSlice, if_pos (Nat.mod_lt j (show 0 < 16384 by decide)),
          Nat.div_add_mod' j 16384] at hslice
        exact hslice
      · rw [lt_metadataPieces_iff] at hi
        rw [getElem?_eq_none (by omega), getElem?_eq_none (by omega)]

end

theorem assemble_concat (ps : List Nat) (p : Nat) :
    assemble b (ps ++ [p]) buf = receivePiece b (assemble b ps buf) p := by
  rw [assemble, foldl_append]
  rfl

theorem receivePiece_self (hp : p < metadataPieces b) : receivePiece b b p = b := by
  apply ext_getElem?
  intro j
  rw [getElem?_receivePiece rfl hp, ite_self]

end Assemble

/-! ## Honest messages -/

def HonestMessage (b : Bytes) (p : Nat) (payload : Bytes) : Prop :=
  p < metadataPieces b ∧
    parseMetadata payload =
      .ok (some (.data (ofNat p) (UInt64.ofNat b.length) (metadataSlice b p)))

section Honest

variable {b : Bytes} {p : Nat} {payload : Bytes}

section

variable (hb : b.length < 2 ^ 63) (hp : p < metadataPieces b)

include hb hp

theorem toInt_piece : (ofNat p).toInt = p := by
  have := lt_metadataPieces_iff.mp hp
  exact toInt_ofNat_of_lt (by omega)

theorem toNat_pieceOffset : ((ofNat p).toUInt64 * metadataPieceSize).toNat = p * 16384 := by
  have hoff := toNat_metadataOffset (ofNat p)
  rw [toInt_piece hb hp] at hoff
  have := lt_metadataPieces_iff.mp hp
  omega

theorem honest_metadataData : HonestMessage b p (metadataData b (ofNat p)) := by
  have hstart := lt_metadataPieces_iff.mp hp
  have hslice : b.slice (p * 16384) (min metadataPieceSize.toNat (b.length - p * 16384)) =
      metadataSlice b p := by
    rw [show metadataPieceSize.toNat = 16384 from rfl, metadataSlice, slice, slice,
      ← take_take, take_of_length_le (i := b.length - p * 16384)]
    rw [length_drop]
  have hsize : (ofNat b.length).toUInt64 = UInt64.ofNat b.length := rfl
  refine ⟨hp, ?_⟩
  have hdata : metadataData b (ofNat p) =
      metadataMessage (ofNat p) (ofNat b.length) (metadataSlice b p) := by
    unfold metadataData
    dsimp only
    rw [toNat_pieceOffset hb hp, hslice]
    rfl
  rw [hdata, parseMetadata_message _ _ _ ?_ ?_, hsize]
  · rw [hsize]
    intro h
    have := congrArg UInt64.toNat h
    rw [UInt64.toNat_ofNat_of_lt' (Nat.lt_trans hb (by decide))] at this
    exact absurd this (by simp only [UInt64.toNat_zero]; omega)
  · have := length_metadataSlice hp
    exact ne_nil_of_length_pos (by omega)

theorem honest_arith :
    ((ofNat p).toUInt64 * metadataPieceSize + UInt64.ofNat (metadataSlice b p).length ≤
      UInt64.ofNat b.length) ∧
    ((UInt64.ofNat b.length + metadataPieceSize - 1) / metadataPieceSize).toNat =
      metadataPieces b := by
  have hslice := length_metadataSlice hp
  constructor
  · rw [metadataCheck_iff (by omega), metadataEnd, toInt_piece hb hp]
    omega
  · have hsum : (UInt64.ofNat b.length + metadataPieceSize - 1).toNat = b.length + 16383 := by
      rw [UInt64.toNat_sub, UInt64.toNat_add, UInt64.toNat_ofNat',
        show metadataPieceSize.toNat = 16384
        from rfl, show (1 : UInt64).toNat = 1 from rfl]
      omega
    rw [UInt64.toNat_div, hsum]
    rfl

end

end Honest

/-! ## What a session does with them -/

namespace MagnetSession

variable {sha1 : Bytes → Bytes} {allocates : UInt64 → Bool} {extId : UInt8}
  {s s' : MagnetSession} {b payload : Bytes} {p : Nat}

def accept (b : Bytes) (s : MagnetSession) (p : Nat) : MagnetSession :=
  { s with
    metadataBuffer := receivePiece b s.metadataBuffer p
    metadataPiecesReceived := s.metadataPiecesReceived + 1 }

def resized (b : Bytes) (s : MagnetSession) : MagnetSession :=
  { s with metadataBuffer := List.replicate b.length 0, metadataBufferInitFlag := true }

theorem metadataBuffer_foldl_accept (ds : List Nat) (s : MagnetSession) :
    (ds.foldl (accept b) s).metadataBuffer = assemble b ds s.metadataBuffer := by
  induction ds generalizing s with
  | nil => rfl
  | cons d ds ih => exact ih (s.accept b d)

theorem onMessage_honest (hb : b.length < 2 ^ 63) (hflag : s.metadataBufferInitFlag = true)
    (hactive : s.metadataDownloadActive = true) (hlen : s.metadataBuffer.length = b.length)
    (hmsg : HonestMessage b p payload) :
    s.onMessage sha1 allocates extId payload =
      if metadataPieces b ≤ (s.metadataPiecesReceived + 1).toNat then
        (s.accept b p).onMetadataComplete sha1
      else some (s.accept b p) := by
  obtain ⟨hcheck, hcount⟩ := honest_arith hb hmsg.1
  have hslice := length_metadataSlice hmsg.1
  unfold onMessage
  rw [handle_data allocates extId hflag hactive hmsg.2]
  have hlen' : s.metadata.metadataBuffer.length = b.length := hlen
  rw [hlen', if_pos hcheck, toNat_pieceOffset hb hmsg.1, if_pos (by omega)]
  have hdone : s.metadata.metadataPiecesReceived + 1 ≥
      (UInt64.ofNat b.length + metadataPieceSize - 1) / metadataPieceSize ↔
      metadataPieces b ≤ (s.metadataPiecesReceived + 1).toNat := by
    rw [ge_iff_le, UInt64.le_iff_toNat_le, hcount]
    rfl
  by_cases hend : metadataPieces b ≤ (s.metadataPiecesReceived + 1).toNat
  · rw [if_pos hend, decide_eq_true (hdone.mpr hend)]
    rfl
  · rw [if_neg hend, decide_eq_false (mt hdone.mp hend)]
    rfl

theorem onMessage_honest_first (hb : b.length < 2 ^ 63)
    (hflag : s.metadataBufferInitFlag = false) (hactive : s.metadataDownloadActive = true)
    (hbuf : s.metadataBuffer = []) (hmsg : HonestMessage b p payload) :
    s.onMessage sha1 allocates extId payload =
      if allocates (UInt64.ofNat b.length) then
        (s.resized b).onMessage sha1 allocates extId payload
      else some s := by
  have hmax : UInt64.ofNat b.length ≤ vectorMaxSize := by
    rw [UInt64.le_iff_toNat_le, UInt64.toNat_ofNat_of_lt' (Nat.lt_trans hb (by decide)),
      show vectorMaxSize.toNat = 2 ^ 63 - 1 by decide +kernel]
    omega
  unfold onMessage
  rw [handle_data_init allocates extId hflag hactive hmsg.2 hmax]
  by_cases halloc : allocates (UInt64.ofNat b.length) = true
  · -- the buffer that the handler makes is the one of `resized`
    have hview : { s.metadata with
        metadataBuffer := s.metadata.metadataBuffer.take (UInt64.ofNat b.length).toNat ++
          List.replicate ((UInt64.ofNat b.length).toNat - s.metadata.metadataBuffer.length) 0
        metadataBufferInitFlag := true } = (s.resized b).metadata := by
      have hnil : s.metadata.metadataBuffer = [] := hbuf
      rw [hnil, UInt64.toNat_ofNat_of_lt' (Nat.lt_trans hb (by decide)), take_nil,
        nil_append, length_nil, Nat.sub_zero]
      rfl
    rw [if_pos halloc, if_pos halloc, hview]
    rfl
  · rw [if_neg halloc, if_neg halloc]
    rfl

theorem onMessage_inactive (hactive : s.metadataDownloadActive = false) (payload : Bytes) :
    s.onMessage sha1 allocates extId payload = some s := by
  unfold onMessage
  obtain ⟨piece, totalSize, rawPiece, hmsg⟩ | ⟨r, hr, hdefined, hcopied⟩ :=
    handle_data_or_other allocates extId s.metadata payload
  · rw [handle_data_inactive allocates extId hactive hmsg]
    rfl
  · rw [hr]
    split
    · next heq => exact absurd (Prod.mk.inj heq).1 hdefined
    · next heq => exact absurd (Prod.mk.inj heq).1 (hcopied _ _ _ _)
    · next heq =>
      rw [← (Prod.mk.inj heq).2]
      rfl

theorem onMetadataComplete_cases (h : s.onMetadataComplete sha1 = some s') :
    (∃ state, s' = { s with
        completions := s.metadataBuffer :: s.completions
        state := state }.endDownload) ∨
      ∃ u state, s.state.loadMetadata sha1 s.metadataBuffer = (.ok u, state) ∧ s' = { s with
        completions := s.metadataBuffer :: s.completions
        state := state
        preparing := s.preparing + 1 } := by
  unfold onMetadataComplete at h
  dsimp only at h
  split at h
  · exact nomatch h
  · exact .inl ⟨_, (some.inj h).symm⟩
  · next u state hload => exact .inr ⟨u, state, hload, (some.inj h).symm⟩

theorem onMetadataComplete_some (h : s.onMetadataComplete sha1 = some s') :
    s'.completions = s.metadataBuffer :: s.completions ∧
      s'.metadataBufferInitFlag = s.metadataBufferInitFlag ∧
      (s'.metadataDownloadActive = true →
        s.metadataDownloadActive = true ∧ s'.metadataBuffer = s.metadataBuffer) := by
  rcases onMetadataComplete_cases h with ⟨state, rfl⟩ | ⟨u, state, -, rfl⟩
  · exact ⟨rfl, rfl, nofun⟩
  · exact ⟨rfl, rfl, fun hactive => ⟨hactive, rfl⟩⟩

theorem onMetadataComplete_ok {state : SessionState}
    (hload : s.state.loadMetadata sha1 s.metadataBuffer = (.ok (), state)) :
    s.onMetadataComplete sha1 = some { s with
      completions := s.metadataBuffer :: s.completions
      state := state
      preparing := s.preparing + 1 } := by
  unfold onMetadataComplete
  dsimp only
  rw [hload]

theorem onMetadataComplete_other (hdec : ∀ d, decode s.metadataBuffer ≠ .ok (.dict d)) :
    s.onMetadataComplete sha1 =
      some { s with completions := s.metadataBuffer :: s.completions }.endDownload := by
  unfold onMetadataComplete
  dsimp only
  rw [SessionState.loadMetadata_other hdec]

theorem onMessage_length (hflag : s.metadataBufferInitFlag = true)
    (h : s.onMessage sha1 allocates extId payload = some s') :
    s'.metadataBufferInitFlag = true ∧
      (∃ new, s'.completions = new ++ s.completions ∧
        ∀ buf ∈ new, buf.length = s.metadataBuffer.length) ∧
      (s'.metadataDownloadActive = true → s'.metadataBuffer.length = s.metadataBuffer.length) := by
  have hkeep := handle_length allocates extId payload (s := s.metadata) hflag
  unfold onMessage at h
  split at h
  · cases h
  · next m hm =>
    -- the message completes the metadata
    rw [hm] at hkeep
    obtain ⟨hcompletions, hflag', hbuffer⟩ := onMetadataComplete_some h
    refine ⟨hflag'.trans hkeep.1, ⟨[m.metadataBuffer], hcompletions, ?_⟩, ?_⟩
    · intro buf hbuf
      rw [mem_singleton.mp hbuf]
      exact hkeep.2
    · intro hactive
      rw [(hbuffer hactive).2]
      exact hkeep.2
  · next m _ _ hm =>
    rw [hm] at hkeep
    cases h
    exact ⟨hkeep.1, ⟨[], rfl, nofun⟩, fun _ => hkeep.2⟩

theorem request_cases (allocates : UInt64 → Bool) (s : MagnetSession) (conn : MetadataPeer) :
    (s.requestMetadataFromPeer allocates conn).2.1 = s ∨
      (s.metadataBufferInitFlag = false ∧ 0 < conn.metadataSize.toInt ∧
        allocates (UInt64.ofNat conn.metadataSize.toInt.toNat) = true ∧
        (s.requestMetadataFromPeer allocates conn).2.1 = { s with
          metadataBuffer := s.metadataBuffer.take conn.metadataSize.toInt.toNat ++
            replicate (conn.metadataSize.toInt.toNat - s.metadataBuffer.length) 0
          metadataPiecesReceived := 0
          metadataBufferInitFlag := true }) := by
  unfold requestMetadataFromPeer
  split
  · exact .inl rfl
  · next hask =>
    dsimp only
    split
    · exact .inl rfl
    · next hflag =>
      split
      · exact .inl rfl
      · next halloc =>
        right
        have hpos : ¬ conn.metadataSize ≤ 0 := fun hle => hask (.inr (.inr (.inl hle)))
        refine ⟨by simpa using hflag, ?_, by simpa using halloc, rfl⟩
        rw [Int32.le_iff_toInt_le, Int32.toInt_zero] at hpos
        exact Int.not_le.mp hpos

end MagnetSession

variable {sha1 : Bytes → Bytes} {allocates : UInt64 → Bool} {s : MagnetSession}

theorem MagnetStep.step_request_some {s' : MagnetSession} {conn : MetadataPeer}
    (hstep : step sha1 allocates s (.request conn) = some s') :
    s' = (s.requestMetadataFromPeer allocates conn).2.1 := by
  simp only [step] at hstep
  split at hstep
  · exact nomatch hstep
  · next heq => rw [← some.inj hstep, heq]

theorem MagnetStep.step_request {conn : MetadataPeer}
    (hsize : conn.metadataSize.toInt + 16384 < 2 ^ 31) :
    step sha1 allocates s (.request conn) =
      some (s.requestMetadataFromPeer allocates conn).2.1 := by
  have hdefined : (s.requestMetadataFromPeer allocates conn).1 ≠ .error .undefinedBehaviour := by
    unfold requestMetadataFromPeer requestCount
    dsimp only
    rw [if_pos hsize]
    repeat' split
    all_goals exact nofun
  unfold step
  dsimp only
  split
  · next heq =>
    rw [heq] at hdefined
    exact absurd rfl hdefined
  · next heq => rw [heq]

/-! ## Runs of honest messages -/

def deliveredPiece (payload : Bytes) : Option Nat :=
  match parseMetadata payload with
  | .ok (some (.data piece _ _)) => some piece.toInt.toNat
  | _ => none

def recordDelivery (ds : List Nat) : MagnetStep → List Nat
  | .message _ payload => ds ++ (deliveredPiece payload).toList
  | _ => ds

def deliveries (steps : List MagnetStep) : List Nat := steps.foldl recordDelivery []

def HonestMagnetStep (b : Bytes) : MagnetStep → Prop
  | .request conn => conn.metadataSize.toInt = b.length
  | .message _ payload => ∃ p, HonestMessage b p payload
  | _ => True

variable {b : Bytes}

theorem deliveredPiece_honest {payload : Bytes} {p : Nat} (hb : b.length < 2 ^ 63)
    (h : HonestMessage b p payload) : deliveredPiece payload = some p := by
  unfold deliveredPiece
  rw [h.2]
  dsimp only
  rw [toInt_piece hb h.1, Int.toNat_natCast]

section Assembly

variable (allocates : UInt64 → Bool) (b : Bytes)

/-- The buffer after the pieces `ds` have arrived from the start. -/
abbrev assembled (ds : List Nat) : Bytes := assemble b ds (List.replicate b.length 0)

structure Waiting (ds : List Nat) (s : MagnetSession) : Prop where
  active : s.metadataDownloadActive = true
  completions : s.completions = []
  preparing : s.preparing = 0
  unsized : s.metadataBufferInitFlag = false → s.metadataBuffer = [] ∧
    s.metadataPiecesReceived = 0 ∧ (ds = [] ∨ allocates (UInt64.ofNat b.length) = false)
  sized : s.metadataBufferInitFlag = true → allocates (UInt64.ofNat b.length) = true ∧
    s.metadataPiecesReceived.toNat = ds.length ∧ (ds = [] ∨ ds.length < metadataPieces b) ∧
    s.metadataBuffer = assembled b ds

/-- As many messages as pieces arrived, and `on_metadata_complete` was called with the result. -/
structure Used (ds : List Nat) (s : MagnetSession) : Prop where
  allocated : allocates (UInt64.ofNat b.length) = true
  enough : metadataPieces b ≤ ds.length
  first : ∃ later, s.completions = later ++ [assembled b (ds.take (metadataPieces b))]
  flag : s.metadataBufferInitFlag = true
  complete : assembled b (ds.take (metadataPieces b)) = b →
    (∀ buf ∈ s.completions, buf = b) ∧
      (s.metadataDownloadActive = true → s.metadataBuffer = b)

def Assembly (ds : List Nat) (s : MagnetSession) : Prop :=
  (∀ d ∈ ds, d < metadataPieces b) ∧ (Waiting allocates b ds s ∨ Used allocates b ds s)

variable {allocates b} {sha1 : Bytes → Bytes} {ds : List Nat} {s s' : MagnetSession}
  {extId : UInt8} {payload : Bytes} {p : Nat}

theorem Waiting.message (hb : b.length < 2 ^ 63) (hds : ∀ d ∈ ds, d < metadataPieces b)
    (h : Waiting allocates b ds s) (hflag : s.metadataBufferInitFlag = true)
    (hmsg : HonestMessage b p payload)
    (hstep : s.onMessage sha1 allocates extId payload = some s') :
    Waiting allocates b (ds ++ [p]) s' ∨ Used allocates b (ds ++ [p]) s' := by
  obtain ⟨halloc, hcount, hfew, hbuf⟩ := h.sized hflag
  have hlen : s.metadataBuffer.length = b.length := by
    rw [hbuf, length_assemble length_replicate hds]
  have hpieces : metadataPieces b < 2 ^ 63 := by unfold metadataPieces; omega
  have hp := hmsg.1
  have hsmall : ds.length < metadataPieces b := by
    rcases hfew with rfl | hlt
    · rw [length_nil]; omega
    · exact hlt
  have hcount' : (s.metadataPiecesReceived + 1).toNat = ds.length + 1 := by
    rw [UInt64.toNat_add, hcount, show (1 : UInt64).toNat = 1 from rfl]
    omega
  have hbuf' : (s.accept b p).metadataBuffer = assembled b (ds ++ [p]) := by
    show receivePiece b s.metadataBuffer p = _
    rw [assembled, assemble_concat, hbuf]
  rw [onMessage_honest hb hflag h.active hlen hmsg, hcount'] at hstep
  split at hstep
  · -- this was the last message that is waited for
    next hlast =>
    obtain ⟨hcompletions, hflag', hrest⟩ := onMetadataComplete_some hstep
    have htake : (ds ++ [p]).take (metadataPieces b) = ds ++ [p] := by
      apply take_of_length_le
      rw [length_append, length_singleton]
      omega
    rw [hbuf', show (s.accept b p).completions = [] from h.completions] at hcompletions
    right
    refine ⟨halloc, by rw [length_append, length_singleton]; exact hlast,
      ⟨[], by rw [htake, hcompletions]; rfl⟩, hflag'.trans hflag, fun hb' => ⟨?_, ?_⟩⟩
    · rw [htake] at hb'
      intro buf hmem
      rw [hcompletions, mem_singleton] at hmem
      rw [hmem, hb']
    · intro hactive
      rw [htake] at hb'
      rw [(hrest hactive).2, hbuf', hb']
  · next hmore =>
    cases hstep
    left
    refine ⟨h.active, h.completions, h.preparing, fun hno => ?_, fun _ => ?_⟩
    · exact absurd (hflag.symm.trans hno) nofun
    · refine ⟨halloc, ?_, .inr ?_, hbuf'⟩
      · rw [length_append, length_singleton]
        exact hcount'
      · rw [length_append, length_singleton]
        omega

theorem Used.message (hb : b.length < 2 ^ 63) (h : Used allocates b ds s)
    (hmsg : HonestMessage b p payload)
    (hstep : s.onMessage sha1 allocates extId payload = some s') :
    Used allocates b (ds ++ [p]) s' := by
  have htake : (ds ++ [p]).take (metadataPieces b) = ds.take (metadataPieces b) :=
    take_append_of_le_length h.enough
  have henough : metadataPieces b ≤ (ds ++ [p]).length :=
    Nat.le_trans h.enough (by rw [length_append]; omega)
  obtain ⟨hflag', ⟨new, hnew, -⟩, -⟩ := onMessage_length h.flag hstep
  obtain ⟨later, hlater⟩ := h.first
  refine ⟨h.allocated, henough, ⟨new ++ later, ?_⟩, hflag', fun hb' => ?_⟩
  · rw [htake, hnew, hlater, append_assoc]
  · rw [htake] at hb'
    obtain ⟨hall, hbuf⟩ := h.complete hb'
    cases hactive : s.metadataDownloadActive with
    | false =>
      rw [onMessage_inactive hactive] at hstep
      rw [← some.inj hstep]
      exact ⟨hall, fun hno => absurd (hactive.symm.trans hno) nofun⟩
    | true =>
      -- the buffer is complete, and the piece that is copied does not change it
      have hsame : (s.accept b p).metadataBuffer = b := by
        show receivePiece b s.metadataBuffer p = b
        rw [hbuf hactive, receivePiece_self hmsg.1]
      rw [onMessage_honest hb h.flag hactive (by rw [hbuf hactive]) hmsg] at hstep
      split at hstep
      · obtain ⟨hcompletions, -, hrest⟩ := onMetadataComplete_some hstep
        rw [hsame] at hcompletions
        refine ⟨?_, fun hactive' => ?_⟩
        · rw [hcompletions]
          exact forall_mem_cons.mpr ⟨rfl, hall⟩
        · rw [(hrest hactive').2, hsame]
      · cases hstep
        exact ⟨hall, fun _ => hsame⟩

theorem Waiting.resized (h : Waiting allocates b ds s) (hflag : s.metadataBufferInitFlag = false)
    (halloc : allocates (UInt64.ofNat b.length) = true) :
    ds = [] ∧ Waiting allocates b ds (s.resized b) := by
  obtain ⟨-, hcount, hds⟩ := h.unsized hflag
  have hnil : ds = [] := by
    cases hds with
    | inl hnil => exact hnil
    | inr hno => exact absurd (halloc.symm.trans hno) nofun
  refine ⟨hnil, h.active, h.completions, h.preparing, nofun, fun _ => ⟨halloc, ?_, .inl hnil, ?_⟩⟩
  · show s.metadataPiecesReceived.toNat = ds.length
    rw [hcount, hnil]
    rfl
  · rw [hnil]
    rfl

theorem Waiting.few (h : Waiting allocates b ds s) :
    ds = [] ∨ allocates (UInt64.ofNat b.length) = false ∨ ds.length < metadataPieces b := by
  cases hflag : s.metadataBufferInitFlag with
  | false => exact (h.unsized hflag).2.2.imp_right .inl
  | true => exact (h.sized hflag).2.2.1.imp_right .inr

theorem assembly_step (hb : b.length < 2 ^ 63) {st : MagnetStep} (hhonest : HonestMagnetStep b st)
    (h : Assembly allocates b ds s) (hstep : st.step sha1 allocates s = some s') :
    Assembly allocates b (recordDelivery ds st) s' := by
  obtain ⟨hds, h⟩ := h
  -- a download is prepared only after the metadata have been used
  have hused : 0 < s.preparing → Used allocates b ds s := by
    intro hpos
    exact h.resolve_left fun hwait => absurd hwait.preparing (Nat.ne_of_gt hpos)
  cases st with
  | request conn =>
    have hs' := step_request_some hstep
    refine ⟨hds, ?_⟩
    show Waiting allocates b ds s' ∨ Used allocates b ds s'
    cases request_cases allocates s conn with
    | inl hsame =>
      rw [hs', hsame]
      exact h
    | inr hnew =>
      obtain ⟨hflag, -, halloc, hnew⟩ := hnew
      have hsize : conn.metadataSize.toInt.toNat = b.length := by
        rw [show conn.metadataSize.toInt = b.length from hhonest]
        exact Int.toNat_natCast _
      rw [hsize] at halloc hnew
      cases h with
      | inl hwait =>
        obtain ⟨hbuf, hcount, -⟩ := hwait.unsized hflag
        -- what the request makes of the session is what the first message makes of it
        have heq : s' = s.resized b := by
          rw [hs', hnew, hbuf, take_nil, nil_append, length_nil, Nat.sub_zero, ← hcount]
          rfl
        rw [heq]
        exact .inl (hwait.resized hflag halloc).2
      | inr hused => exact absurd (hused.flag.symm.trans hflag) nofun
  | message extId payload =>
    obtain ⟨p, hmsg⟩ := hhonest
    have hrecord : recordDelivery ds (.message extId payload) = ds ++ [p] := by
      simp only [recordDelivery, deliveredPiece_honest hb hmsg, toList_some]
    rw [hrecord]
    constructor
    · intro d hd
      cases mem_append.mp hd with
      | inl hold => exact hds d hold
      | inr hnew =>
        rw [mem_singleton.mp hnew]
        exact hmsg.1
    · cases h with
      | inr hused => exact .inr (hused.message hb hmsg hstep)
      | inl hwait =>
        cases hflag : s.metadataBufferInitFlag with
        | true => exact hwait.message hb hds hflag hmsg hstep
        | false =>
          obtain ⟨hbuf, hcount, -⟩ := hwait.unsized hflag
          replace hstep : s.onMessage sha1 allocates extId payload = some s' := hstep
          rw [onMessage_honest_first hb hflag hwait.active hbuf hmsg] at hstep
          cases halloc : allocates (UInt64.ofNat b.length) with
          | true =>
            rw [if_pos halloc] at hstep
            exact (hwait.resized hflag halloc).2.message hb hds rfl hmsg hstep
          | false =>
            -- there is no memory for the buffer, and the message is lost
            rw [if_neg (by rw [halloc]; exact nofun)] at hstep
            cases hstep
            left
            refine ⟨hwait.active, hwait.completions, hwait.preparing,
              fun _ => ⟨hbuf, hcount, .inr halloc⟩, fun hno => ?_⟩
            exact absurd (hflag.symm.trans hno) nofun
  | prepare | giveUp =>
    obtain ⟨hpos, heq⟩ := ite_none_right_eq_some.mp hstep
    cases heq
    have hused := hused hpos
    exact ⟨hds, .inr ⟨hused.allocated, hused.enough, hused.first, hused.flag, hused.complete⟩⟩
  | finish =>
    obtain ⟨hpos, heq⟩ := ite_none_right_eq_some.mp hstep
    cases heq
    have hused := hused hpos
    exact ⟨hds, .inr ⟨hused.allocated, hused.enough, hused.first, hused.flag,
      fun hb' => ⟨(hused.complete hb').1, nofun⟩⟩⟩

end Assembly

theorem metadataSlice_zeros_iff (b : Bytes) (i : Nat) :
    metadataSlice (replicate b.length 0) i = metadataSlice b i ↔
      ∀ x ∈ metadataSlice b i, x = 0 := by
  have hzeros : metadataSlice (replicate b.length 0) i =
      replicate (metadataSlice b i).length 0 := by
    rw [metadataSlice, metadataSlice, length_slice, slice, drop_replicate, take_replicate]
  rw [hzeros, eq_comm, eq_replicate_iff]
  exact and_iff_right rfl

theorem assembly_run (hb : b.length < 2 ^ 63) (mode : Mode) (infoHash : Bytes)
    (tiers : List (List Bytes)) {steps : List MagnetStep}
    (hhonest : ∀ st ∈ steps, HonestMagnetStep b st)
    (hrun : run sha1 allocates steps (.createFromMagnet mode infoHash tiers) = some s) :
    Assembly allocates b (deliveries steps) s := by
  have hstart : Assembly allocates b [] (.createFromMagnet mode infoHash tiers) := by
    refine ⟨nofun, .inl ⟨rfl, rfl, rfl, fun _ => ⟨rfl, rfl, .inl rfl⟩, nofun⟩⟩
  have hrec := runSteps_recording recordDelivery [] hrun
  exact runSteps_invariant (I := fun r => Assembly allocates b r.1 r.2)
    (fun r st r' hok hstep h => by
      obtain ⟨s₁, hs₁, rfl⟩ := map_eq_some_iff.mp hstep
      exact assembly_step hb hok h hs₁)
    (StepsMeet.of_forall hhonest _) hrec hstart

/-- With honest peers `on_metadata_complete` is called with the info dictionary only, exactly when
    there is no memory for the buffer, or too few messages, or the first ones bring every piece that
    is not all zeros. -/
theorem metadata_assembled_iff (sha1 : Bytes → Bytes) (allocates : UInt64 → Bool) (mode : Mode)
    (infoHash : Bytes) (tiers : List (List Bytes)) (b : Bytes) (hb : b.length < 2 ^ 63)
    (steps : List MagnetStep) (hhonest : ∀ st ∈ steps, HonestMagnetStep b st) (s : MagnetSession)
    (hrun : run sha1 allocates steps (.createFromMagnet mode infoHash tiers) = some s) :
    (∀ buf ∈ s.completions, buf = b) ↔
      allocates (UInt64.ofNat b.length) = false ∨
      (deliveries steps).length < metadataPieces b ∨
      ∀ i < metadataPieces b, i ∈ (deliveries steps).take (metadataPieces b) ∨
        ∀ x ∈ metadataSlice b i, x = 0 := by
  obtain ⟨hds, hstate⟩ := assembly_run hb mode infoHash tiers hhonest hrun
  have htake : ∀ d ∈ (deliveries steps).take (metadataPieces b), d < metadataPieces b :=
    fun d hd => hds d (mem_of_mem_take hd)
  have hcover := assemble_eq_iff (length_replicate (n := b.length) (a := 0)) htake
  simp only [metadataSlice_zeros_iff] at hcover
  rw [← hcover]
  cases hstate with
  | inl hwait =>
    -- nothing has been used, and fewer messages have arrived than there are pieces
    have hnone : ∀ buf ∈ s.completions, buf = b := by
      rw [hwait.completions]
      exact nofun
    refine iff_of_true hnone ?_
    rcases hwait.few with hnil | halloc | hlt
    · -- nothing has arrived, which is enough for the empty dictionary only
      rw [hnil]
      by_cases hempty : metadataPieces b = 0
      · have hb' : b = [] := by
          apply eq_nil_of_length_eq_zero
          unfold metadataPieces at hempty
          omega
        exact .inr (.inr (by rw [hb']; rfl))
      · exact .inr (.inl (Nat.pos_of_ne_zero hempty))
    · exact .inl halloc
    · exact .inr (.inl hlt)
  | inr hused =>
    constructor
    · intro hall
      obtain ⟨later, hlater⟩ := hused.first
      right; right
      apply hall
      rw [hlater]
      exact mem_append_right _ (mem_singleton.mpr rfl)
    · intro hcond
      rcases hcond with halloc | hfew | hcomplete
      · exact absurd (hused.allocated.symm.trans halloc) nofun
      · exact absurd hused.enough (Nat.not_le.mpr hfew)
      · exact (hused.complete hcomplete).1

/-! ## Two peers -/

theorem decode_assembled_ne_dict {ds : List Nat} (hds : ∀ d ∈ ds, d + 1 < metadataPieces b)
    (d : Dict) : decode (assembled b ds) ≠ .ok (.dict d) := by
  intro hdec
  have hps : ∀ p ∈ ds, p < metadataPieces b := fun p hp => Nat.lt_of_succ_lt (hds p hp)
  have hlast := getLast?_of_decode_dict hdec
  rw [getLast?_eq_getElem?, length_assemble length_replicate hps,
    getElem?_assemble length_replicate hps,
    if_neg, getElem?_replicate] at hlast
  · split at hlast
    · exact nomatch hlast
    · exact nomatch hlast
  · intro hmem
    have := lt_metadataPieces_iff.mp (hds _ hmem)
    omega

def shortDict : Dict :=
  [(Bytes.ascii "length", .int 1), (Bytes.ascii "name", .str [97]),
    (Bytes.ascii "piece length", .int 1), (Bytes.ascii "pieces", .str (List.replicate 20 97))]

def longDict : Dict := (Bytes.ascii "comment", .str (List.replicate 17000 97)) :: shortDict

def longInfo : Bytes := encode (.dict longDict)

theorem wf_longDict : (Value.dict longDict).WF := by
  rw [Value.WF]
  constructor
  · unfold longDict shortDict Assoc.Sorted
    simp only [pairwise_cons, forall_mem_cons]
    decide +kernel
  · simp only [longDict, shortDict, Value.WFEntries, Value.WF, length_replicate]
    decide

theorem populates_longDict : Populates longDict := rfl

theorem decode_longInfo : decode longInfo = .ok (.dict longDict) := decode_encode wf_longDict

theorem length_longInfo : longInfo.length = 17086 := by
  have hkey : (encodeString (ascii "comment")).length = 9 := by decide +kernel
  have hcomment : (encodeString (replicate 17000 97)).length = 17006 := by
    rw [encodeString, length_append, length_cons, length_replicate,
      show (Decimal.printNat 17000).length = 5 from rfl]
  have hrest : (encodeEntries shortDict).length = 69 := by decide +kernel
  rw [longInfo, encode, longDict, encodeEntries, encode, length_cons, length_append,
    length_append, length_append, hkey, hcomment, hrest, length_singleton]

theorem metadataPieces_longInfo : metadataPieces longInfo = 2 := by
  rw [metadataPieces, length_longInfo]

/-- Two peers, of which each sends one piece of the info dictionary. -/
def onePieceEach (p q : Nat) : List MagnetStep :=
  [.request ⟨3, 17086, false⟩, .request ⟨4, 17086, false⟩,
    .message 3 (metadataData longInfo (ofNat p)), .message 4 (metadataData longInfo (ofNat q))]

def longMagnet : MagnetSession := (createFromMagnet .leech longInfo []).resized longInfo

section

variable {p q : Nat} (hp : p < 2) (hq : q < 2)

theorem longInfo_lt : longInfo.length < 2 ^ 63 := by rw [length_longInfo]; decide

include hp in
theorem honest_longInfo : HonestMessage longInfo p (metadataData longInfo (ofNat p)) :=
  honest_metadataData longInfo_lt (by rwa [metadataPieces_longInfo])

include hp hq

theorem honest_onePieceEach : ∀ st ∈ onePieceEach p q, HonestMagnetStep longInfo st := by
  simp only [onePieceEach, forall_mem_cons]
  refine ⟨?_, ?_, ⟨p, honest_longInfo hp⟩, ⟨q, honest_longInfo hq⟩, nofun⟩ <;>
    rw [HonestMagnetStep, length_longInfo] <;> decide

theorem run_onePieceEach :
    run id (fun _ => true) (onePieceEach p q) (.createFromMagnet .leech longInfo []) =
      ((longMagnet.accept longInfo p).accept longInfo q).onMetadataComplete id := by
  have hsize : (17086 : Int32).toInt = longInfo.length := by rw [length_longInfo]; decide
  have hfirst : step id (fun _ => true) (.createFromMagnet .leech longInfo [])
      (.request ⟨3, 17086, false⟩) = some longMagnet := by
    rw [step_request (by decide), requestMetadataFromPeer, if_neg (by decide)]
    dsimp only
    rw [hsize, Int.toNat_natCast, if_neg (by decide), if_neg (by decide)]
    rw [show (createFromMagnet .leech longInfo []).metadataBuffer = [] from rfl,
      take_nil, nil_append, length_nil, Nat.sub_zero]
    rfl
  have hsecond : step id (fun _ => true) longMagnet (.request ⟨4, 17086, false⟩) =
      some longMagnet := by
    rw [step_request (by decide), requestMetadataFromPeer, if_neg (by decide)]
    rfl
  -- the first message, and the second one, which is taken for the last
  have hlen : longMagnet.metadataBuffer.length = longInfo.length := by
    rw [longMagnet, resized, length_replicate]
  have hthird : step id (fun _ => true) longMagnet
      (.message 3 (metadataData longInfo (ofNat p))) = some (longMagnet.accept longInfo p) := by
    refine (onMessage_honest longInfo_lt rfl rfl hlen (honest_longInfo hp)).trans (if_neg ?_)
    rw [metadataPieces_longInfo]
    decide
  have hlen' : (longMagnet.accept longInfo p).metadataBuffer.length = longInfo.length := by
    rw [accept, length_receivePiece hlen (by rwa [metadataPieces_longInfo])]
  simp only [run, onePieceEach, runSteps, hfirst, hsecond, hthird, bind_some, bind_fun_some]
  refine (onMessage_honest longInfo_lt rfl rfl hlen' (honest_longInfo hq)).trans (if_pos ?_)
  rw [metadataPieces_longInfo]
  show 2 ≤ ((0 : UInt64) + 1 + 1).toNat
  decide

omit hp hq in
theorem metadataBuffer_onePieceEach :
    ((longMagnet.accept longInfo p).accept longInfo q).metadataBuffer =
      assembled longInfo [p, q] := by
  have hzeros : longMagnet.metadataBuffer = replicate longInfo.length 0 := by
    rw [longMagnet, resized]
  rw [assembled, ← hzeros]
  exact metadataBuffer_foldl_accept [p, q] longMagnet

end

/-- The second piece comes first, from one peer, and the first piece from the other. -/
theorem metadata_assembled_two_peers :
    ∃ s, run id (fun _ => true) (onePieceEach 1 0) (.createFromMagnet .leech longInfo []) = some s ∧
      s.completions.length = 1 ∧ ∀ buf ∈ s.completions, buf = longInfo := by
  have hbuf : assembled longInfo [1, 0] = longInfo := by
    rw [assembled, assemble_eq_iff length_replicate (by rw [metadataPieces_longInfo]; decide),
      metadataPieces_longInfo]
    intro i hi
    left
    decide +revert
  have hhash : ((longMagnet.accept longInfo 1).accept longInfo 0).state.metaInfo.infoHashBytes =
      id longInfo := by
    rw [longMagnet]
    generalize longInfo = b
    rfl
  obtain ⟨s, hs⟩ : ∃ s, ((longMagnet.accept longInfo 1).accept longInfo 0).onMetadataComplete id =
      some s := by
    refine ⟨_, onMetadataComplete_ok (.trans ?_
      (SessionState.loadMetadata_ok decode_longInfo populates_longDict _ hhash))⟩
    rw [metadataBuffer_onePieceEach, hbuf]
  have hrun := (run_onePieceEach (p := 1) (q := 0) (by decide) (by decide)).trans hs
  refine ⟨s, hrun, congrArg length (onMetadataComplete_some hs).1, ?_⟩
  rw [metadata_assembled_iff id _ _ _ _ _ longInfo_lt _
    (honest_onePieceEach (by decide) (by decide)) s hrun]
  right; right
  have hdeliveries : deliveries (onePieceEach 1 0) = [1, 0] := by
    simp only [deliveries, onePieceEach, foldl_cons, foldl_nil, recordDelivery, nil_append,
      deliveredPiece_honest longInfo_lt (honest_longInfo (p := 1) (by decide)),
      deliveredPiece_honest longInfo_lt (honest_longInfo (p := 0) (by decide))]
    rfl
  rw [hdeliveries, metadataPieces_longInfo]
  intro i hi
  left
  decide +revert

def firstPieceTwice : List MagnetStep := onePieceEach 0 0

/-- Two honest peers, and `on_metadata_complete` gets the first half of the info dictionary. -/
theorem metadata_incomplete :
    (loadFromInfoBytes id longInfo {}).1 = some true ∧
    (∀ st ∈ firstPieceTwice, HonestMagnetStep longInfo st) ∧
    ∃ s, run id (fun _ => true) firstPieceTwice
        (.createFromMagnet .leech longInfo []) = some s ∧
      s.completions = [assembled longInfo [0, 0]] ∧ assembled longInfo [0, 0] ≠ longInfo ∧
      s.metadataDownloadActive = false := by
  have hno : ∀ d, decode (assembled longInfo [0, 0]) ≠ .ok (.dict d) :=
    decode_assembled_ne_dict (by rw [metadataPieces_longInfo]; decide)
  have hrun := run_onePieceEach (p := 0) (q := 0) (by decide) (by decide)
  rw [onMetadataComplete_other (by rwa [metadataBuffer_onePieceEach]),
    metadataBuffer_onePieceEach] at hrun
  refine ⟨?_, honest_onePieceEach (by decide) (by decide), _, hrun, rfl, ?_, rfl⟩
  · rw [loadFromInfoBytes_dict decode_longInfo, populates_longDict]
    rfl
  · intro heq
    rw [heq] at hno
    exact hno longDict decode_longInfo

end P2P
