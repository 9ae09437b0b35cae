import P2P.Native.Metadata
import P2P.Spec.BencodeComplete

/-!
# Writes to the metadata buffer

The bound check of a data message computes the end of the copy modulo `2 ^ 64` from the peer's
index.
-/

namespace P2P

open Bencode Throwing MetadataState UInt64 List Except

/-! ## What the check computes -/

def metadataEnd (piece : Int64) (rawPiece : Bytes) : Int :=
  piece.toInt * 16384 + rawPiece.length

theorem toNat_toUInt64 (i : Int64) : (i.toUInt64.toNat : Int) = i.toInt % 2 ^ 64 := by
  have hcond := BitVec.toInt_eq_toNat_cond i.toBitVec
  show (i.toBitVec.toNat : Int) = i.toBitVec.toInt % 2 ^ 64
  rw [hcond]
  split
  · omega
  · omega

theorem toNat_metadataOffset (piece : Int64) :
    ((piece.toUInt64 * metadataPieceSize).toNat : Int) = piece.toInt * 16384 % 2 ^ 64 := by
  rw [UInt64.toNat_mul, show metadataPieceSize.toNat = 16384 from rfl]
  push_cast
  rw [toNat_toUInt64]
  omega

theorem toNat_metadataEnd (piece : Int64) (rawPiece : Bytes) :
    ((piece.toUInt64 * metadataPieceSize + UInt64.ofNat rawPiece.length).toNat : Int) =
      metadataEnd piece rawPiece % 2 ^ 64 := by
  rw [UInt64.toNat_add, UInt64.toNat_ofNat']
  push_cast
  rw [toNat_metadataOffset, metadataEnd]
  omega

/-! ## What the handler does -/

section Handle

variable (allocates : UInt64 → Bool) (extId : UInt8) {s : MetadataState} {payload : Bytes}
  {piece : Int64} {totalSize : UInt64} {rawPiece : Bytes}

theorem handle_data (hinit : s.metadataBufferInitFlag = true)
    (hactive : s.metadataDownloadActive = true)
    (hmsg : parseMetadata payload = .ok (some (.data piece totalSize rawPiece))) :
    s.handle allocates extId payload =
      if piece.toUInt64 * metadataPieceSize + UInt64.ofNat rawPiece.length ≤
          UInt64.ofNat s.metadataBuffer.length then
        if (piece.toUInt64 * metadataPieceSize).toNat + rawPiece.length ≤
            s.metadataBuffer.length then
          (.ok (.copied piece (piece.toUInt64 * metadataPieceSize) rawPiece
            (s.metadataPiecesReceived + 1 ≥
              (totalSize + metadataPieceSize - 1) / metadataPieceSize)),
            { s with
              metadataBuffer := s.metadataBuffer.overwrite 0
                (piece.toUInt64 * metadataPieceSize).toNat rawPiece
              metadataPiecesReceived := s.metadataPiecesReceived + 1 })
        else (.error .undefinedBehaviour, s)
      else (.ok .ignored, s) := by
  have hsize : (initMetadataBuffer allocates totalSize).run.run s = (.ok (), s) := by
    simp only [initMetadataBuffer, run_bind, run_get, hinit, if_true, run_pure]
  simp only [handle, onUtMetadata, hmsg, onMetadataData, run_bind,
    run_get, run_ite, hactive, not_true_eq_false, if_false, hsize]
  -- the check of the code, and then the check that the copy stays inside
  split
  · simp only [copyToMetadataBuffer, run_bind, run_get, run_ite]
    by_cases hin : (piece.toUInt64 * metadataPieceSize).toNat + rawPiece.length ≤
        s.metadataBuffer.length
    · simp only [if_pos hin, run_modify, run_pure, hactive]
    · simp only [if_neg hin, run_throw]
  · rfl

section

variable (hinit : s.metadataBufferInitFlag = false) (hactive : s.metadataDownloadActive = true)
  (hmsg : parseMetadata payload = .ok (some (.data piece totalSize rawPiece)))

include hinit hactive hmsg

theorem handle_data_init (hmax : totalSize ≤ vectorMaxSize) :
    s.handle allocates extId payload =
      if allocates totalSize then
        handle allocates extId { s with
          metadataBuffer := s.metadataBuffer.take totalSize.toNat ++
            replicate (totalSize.toNat - s.metadataBuffer.length) 0
          metadataBufferInitFlag := true } payload
      else (.error .badAlloc, s) := by
  have hmax' : ¬ totalSize > vectorMaxSize := UInt64.not_lt.mpr hmax
  simp only [handle, onUtMetadata, hmsg, onMetadataData, run_bind,
    run_get, run_ite, hactive, not_true_eq_false, if_false, initMetadataBuffer,
    hinit, Bool.false_eq_true, if_true, run_pure, if_neg hmax']
  by_cases halloc : allocates totalSize = true
  · simp only [halloc, not_true_eq_false, if_false, if_true, run_modify, hactive]
  · simp only [halloc, Bool.false_eq_true, not_false_eq_true, if_true, if_false, run_throw]

theorem handle_data_tooLong (hmax : totalSize > vectorMaxSize) :
    s.handle allocates extId payload = (.error .lengthError, s) := by
  simp only [handle, onUtMetadata, hmsg, onMetadataData, run_bind,
    run_get, hactive, not_true_eq_false, if_false, initMetadataBuffer, hinit,
    Bool.false_eq_true, if_pos hmax, run_throw]

end

theorem handle_data_inactive (hactive : s.metadataDownloadActive = false)
    (hmsg : parseMetadata payload = .ok (some (.data piece totalSize rawPiece))) :
    s.handle allocates extId payload = (.ok .ignored, s) := by
  simp only [handle, onUtMetadata, hmsg, onMetadataData, run_bind,
    run_get, hactive, Bool.false_eq_true, not_false_eq_true, if_true,
    run_pure]

variable {e : Fault}

private theorem bind_error {α β : Type} {x : Except Fault α} {f : α → Except Fault β}
    (h : x >>= f = .error e) : x = .error e ∨ ∃ a, x = .ok a ∧ f a = .error e := by
  cases x with
  | error e' =>
    left
    rw [show e' = e from error.inj h]
  | ok a => exact .inr ⟨a, rfl, h⟩

private theorem integerOrZero_error {d : Dict} {key : String} (h : integerOrZero d key = .error e) :
    e = .badVariantAccess := by
  unfold integerOrZero at h
  split at h
  · exact nomatch h
  · exact nomatch h
  · exact (error.inj h).symm

private theorem parseMetadataDict_error {d : Dict} {dictEnd : Nat}
    (h : parseMetadataDict d dictEnd payload = .error e) : e = .badVariantAccess := by
  unfold parseMetadataDict at h
  -- each of the three fields may have another type than an integer
  cases bind_error h with
  | inl h => exact integerOrZero_error h
  | inr h =>
    obtain ⟨msgType, -, h⟩ := h
    cases bind_error h with
    | inl h => exact integerOrZero_error h
    | inr h =>
      obtain ⟨piece, -, h⟩ := h
      split at h
      · cases h
      · split at h
        · cases bind_error h with
          | inl h => exact integerOrZero_error h
          | inr h =>
            obtain ⟨totalSize, -, h⟩ := h
            split at h
            · cases h
            · split at h
              · cases h
              · cases h
        · cases h

theorem parseMetadata_ne_undefined (h : parseMetadata payload = .error e) :
    e ≠ .undefinedBehaviour := by
  unfold parseMetadata at h
  split at h
  · cases h
  · split at h
    · rw [← error.inj h]
      exact nofun
    · rw [parseMetadataDict_error h]
      exact nofun
    · cases h

theorem handle_data_or_other (s : MetadataState) (payload : Bytes) :
    (∃ piece totalSize rawPiece,
      parseMetadata payload = .ok (some (.data piece totalSize rawPiece))) ∨
    ∃ r, s.handle allocates extId payload = (r, s) ∧ r ≠ .error .undefinedBehaviour ∧
      ∀ piece offset rawPiece complete, r ≠ .ok (.copied piece offset rawPiece complete) := by
  cases hparse : parseMetadata payload with
  | error e =>
    -- the exception is not the one that stands for undefined behaviour
    refine .inr ⟨.error e, ?_, ?_, nofun⟩
    · simp only [handle, onUtMetadata, hparse, run_throw]
    · intro he
      exact parseMetadata_ne_undefined hparse (error.inj he)
  | ok m =>
    match m with
    | none =>
      refine .inr ⟨.ok .ignored, ?_, nofun, nofun⟩
      simp only [handle, onUtMetadata, hparse, run_pure]
    | some (.data piece totalSize rawPiece) => exact .inl ⟨piece, totalSize, rawPiece, rfl⟩
    | some (.request piece) =>
      right
      simp only [handle, onUtMetadata, hparse, onMetadataRequest, run_bind,
        run_get, run_ite, run_pure]
      split
      · exact ⟨_, rfl, nofun, nofun⟩
      · split
        · exact ⟨_, rfl, nofun, nofun⟩
        · split
          · exact ⟨_, rfl, nofun, nofun⟩
          · exact ⟨_, rfl, nofun, nofun⟩

theorem handle_length (payload : Bytes) (hinit : s.metadataBufferInitFlag = true) :
    (s.handle allocates extId payload).2.metadataBufferInitFlag = true ∧
      (s.handle allocates extId payload).2.metadataBuffer.length = s.metadataBuffer.length := by
  obtain ⟨piece, totalSize, rawPiece, hmsg⟩ | ⟨r, hr, -⟩ :=
    handle_data_or_other allocates extId s payload
  · cases hactive : s.metadataDownloadActive with
    | false =>
      rw [handle_data_inactive allocates extId hactive hmsg]
      exact ⟨hinit, rfl⟩
    | true =>
      -- a copy replaces bytes of the buffer and adds none
      rw [handle_data allocates extId hinit hactive hmsg]
      split
      · split
        · next hin => exact ⟨hinit, length_overwrite 0 rawPiece hin⟩
        · exact ⟨hinit, rfl⟩
      · exact ⟨hinit, rfl⟩
  · rw [hr]
    exact ⟨hinit, rfl⟩

theorem handle_unsized {payload : Bytes}
    (hinit : (s.handle allocates extId payload).2.metadataBufferInitFlag = false) :
    (s.handle allocates extId payload).2 = s := by
  obtain ⟨piece, totalSize, rawPiece, hmsg⟩ | ⟨r, hr, -⟩ :=
    handle_data_or_other allocates extId s payload
  · cases hactive : s.metadataDownloadActive with
    | false => rw [handle_data_inactive allocates extId hactive hmsg]
    | true =>
      cases hflag : s.metadataBufferInitFlag with
      | true =>
        have hkeep := (handle_length allocates extId payload hflag).1
        exact absurd (hkeep.symm.trans hinit) nofun
      | false =>
        by_cases hmax : totalSize ≤ vectorMaxSize
        · rw [handle_data_init allocates extId hflag hactive hmsg hmax] at hinit ⊢
          split at hinit
          · -- the buffer has its size now
            have hkeep := handle_length allocates extId (s := { s with
              metadataBuffer := s.metadataBuffer.take totalSize.toNat ++
                replicate (totalSize.toNat - s.metadataBuffer.length) 0
              metadataBufferInitFlag := true }) payload rfl
            exact absurd (hkeep.1.symm.trans hinit) nofun
          · next hno => rw [if_neg hno]
        · rw [handle_data_tooLong allocates extId hflag hactive hmsg (UInt64.not_le.mp hmax)]
  · rw [hr]

end Handle

/-! ## Safe messages -/

/-- A message copies nothing, or copies its bytes to the place of its index, inside the buffer. -/
def MetadataState.WriteSafe (allocates : UInt64 → Bool) (extId : UInt8) (s : MetadataState)
    (payload : Bytes) : Prop :=
  (s.handle allocates extId payload).1 ≠ .error .undefinedBehaviour ∧
    ∀ piece offset rawPiece complete,
      (s.handle allocates extId payload).1 = .ok (.copied piece offset rawPiece complete) →
      0 ≤ piece.toInt ∧ (offset.toNat : Int) = piece.toInt * 16384 ∧
        metadataEnd piece rawPiece ≤ s.metadataBuffer.length

section WriteSafe

variable (allocates : UInt64 → Bool) (extId : UInt8) {s : MetadataState} {payload : Bytes}
  {piece : Int64} {totalSize : UInt64} {rawPiece : Bytes}

theorem metadataCheck_iff {size : Nat} (hsize : size < 2 ^ 64) :
    piece.toUInt64 * metadataPieceSize + UInt64.ofNat rawPiece.length ≤ UInt64.ofNat size ↔
      metadataEnd piece rawPiece % 2 ^ 64 ≤ size := by
  have hend := toNat_metadataEnd piece rawPiece
  rw [le_iff_toNat_le, UInt64.toNat_ofNat', Nat.mod_eq_of_lt hsize]
  omega

section

variable (hinit : s.metadataBufferInitFlag = true) (hsize : s.metadataBuffer.length < 2 ^ 64)
  (hactive : s.metadataDownloadActive = true)
  (hmsg : parseMetadata payload = .ok (some (.data piece totalSize rawPiece)))

include hinit hsize hactive hmsg

theorem writeSafe_of_refused
    (hend : (s.metadataBuffer.length : Int) < metadataEnd piece rawPiece % 2 ^ 64) :
    s.WriteSafe allocates extId payload := by
  unfold WriteSafe
  rw [handle_data allocates extId hinit hactive hmsg,
    if_neg (mt (metadataCheck_iff hsize).mp (Int.not_le.mpr hend))]
  exact ⟨nofun, nofun⟩

theorem writeSafe_of_no_wrap (hpos : 0 ≤ piece.toInt) (hlt : metadataEnd piece rawPiece < 2 ^ 64) :
    s.WriteSafe allocates extId payload := by
  have hoff := toNat_metadataOffset piece
  have hdef : metadataEnd piece rawPiece = piece.toInt * 16384 + rawPiece.length := rfl
  unfold WriteSafe
  rw [handle_data allocates extId hinit hactive hmsg]
  split
  · -- the offset is the one of the index, so the copy stays inside the buffer
    next hcheck =>
    have hend := (metadataCheck_iff hsize).mp hcheck
    rw [if_pos (by omega)]
    constructor
    · exact nofun
    · intro piece' offset' rawPiece' complete' heq
      obtain ⟨rfl, rfl, rfl, -⟩ := MetadataEvent.copied.inj (ok.inj heq)
      exact ⟨hpos, by omega, by omega⟩
  · exact ⟨nofun, nofun⟩

theorem no_wrap_of_writeSafe (hend : metadataEnd piece rawPiece % 2 ^ 64 ≤ s.metadataBuffer.length)
    (hsafe : s.WriteSafe allocates extId payload) :
    0 ≤ piece.toInt ∧ metadataEnd piece rawPiece < 2 ^ 64 := by
  unfold WriteSafe at hsafe
  rw [handle_data allocates extId hinit hactive hmsg,
    if_pos ((metadataCheck_iff hsize).mpr hend)] at hsafe
  split at hsafe
  · obtain ⟨hpos, -, hin⟩ := hsafe.2 _ _ _ _ rfl
    exact ⟨hpos, by omega⟩
  · -- the copy would leave the buffer
    exact absurd rfl hsafe.1

end

end WriteSafe

/-- Once the buffer has its size, a message is safe exactly when it is no data message for a running
    download, or its end does not wrap around, or wraps around to a value that the check refuses. -/
theorem metadata_write_safe_iff (allocates : UInt64 → Bool) (extId : UInt8) (s : MetadataState)
    (hinit : s.metadataBufferInitFlag = true) (hsize : s.metadataBuffer.length < 2 ^ 64)
    (payload : Bytes) :
    s.WriteSafe allocates extId payload ↔
      ∀ piece totalSize rawPiece,
        parseMetadata payload = .ok (some (.data piece totalSize rawPiece)) →
        s.metadataDownloadActive = true →
        (0 ≤ piece.toInt ∧ metadataEnd piece rawPiece < 2 ^ 64) ∨
          (s.metadataBuffer.length : Int) < metadataEnd piece rawPiece % 2 ^ 64 := by
  constructor
  · intro hsafe piece totalSize rawPiece hmsg hactive
    -- the check of the code decides which case it is
    by_cases hend : metadataEnd piece rawPiece % 2 ^ 64 ≤ s.metadataBuffer.length
    · left
      exact no_wrap_of_writeSafe allocates extId hinit hsize hactive hmsg hend hsafe
    · right
      exact Int.not_le.mp hend
  · intro hcond
    obtain ⟨piece, totalSize, rawPiece, hmsg⟩ | ⟨r, hr, hub, hcopy⟩ :=
      handle_data_or_other allocates extId s payload
    · cases hactive : s.metadataDownloadActive with
      | false =>
        unfold WriteSafe
        rw [handle_data_inactive allocates extId hactive hmsg]
        exact ⟨nofun, nofun⟩
      | true =>
        cases hcond piece totalSize rawPiece hmsg hactive with
        | inl h => exact writeSafe_of_no_wrap allocates extId hinit hsize hactive hmsg h.1 h.2
        | inr h => exact writeSafe_of_refused allocates extId hinit hsize hactive hmsg h
    · -- the other messages copy nothing
      unfold WriteSafe
      rw [hr]
      exact ⟨hub, fun piece offset rawPiece complete h => absurd h (hcopy _ _ _ _)⟩

/-! ## Messages that wrap around -/

def metadataHeader (piece totalSize : Int64) : Dict :=
  [(Bytes.ascii "msg_type", .int 1), (Bytes.ascii "piece", .int piece),
    (Bytes.ascii "total_size", .int totalSize)]

def metadataMessage (piece totalSize : Int64) (rawPiece : Bytes) : Bytes :=
  encode (.dict (metadataHeader piece totalSize)) ++ rawPiece

theorem wf_metadataHeader (piece totalSize : Int64) :
    (Value.dict (metadataHeader piece totalSize)).WF := by
  have hsorted : ([Bytes.ascii "msg_type", Bytes.ascii "piece", Bytes.ascii "total_size"] :
      List Bytes).Pairwise (· < ·) := by decide
  refine ⟨?_, by decide, trivial, by decide, trivial, by decide, trivial, trivial⟩
  exact pairwise_map.mp hsorted

theorem parseMetadata_message (piece totalSize : Int64) (rawPiece : Bytes)
    (htotal : totalSize.toUInt64 ≠ 0) (hraw : rawPiece ≠ []) :
    parseMetadata (metadataMessage piece totalSize rawPiece) =
      .ok (some (.data piece totalSize.toUInt64 rawPiece)) := by
  unfold metadataMessage parseMetadata
  rw [decodePrefix_encode_append (wf_metadataHeader piece totalSize) rawPiece]
  -- the dictionary is followed by at least one byte
  have hend : ¬ ((encode (.dict (metadataHeader piece totalSize))).length = 0 ∨
      (encode (.dict (metadataHeader piece totalSize))).length ≥
        (encode (.dict (metadataHeader piece totalSize)) ++ rawPiece).length) := by
    have hhead : (encode (.dict (metadataHeader piece totalSize))).length ≠ 0 := nofun
    have hpos := length_pos_iff.mpr hraw
    rw [length_append]
    omega
  show parseMetadataDict (metadataHeader piece totalSize) _ _ = _
  unfold parseMetadataDict
  rw [show integerOrZero (metadataHeader piece totalSize) "msg_type" = .ok 1 from rfl,
    show integerOrZero (metadataHeader piece totalSize) "piece" = .ok piece from rfl,
    show integerOrZero (metadataHeader piece totalSize) "total_size" = .ok totalSize from rfl]
  simp only [bind, Except.bind]
  rw [if_neg (by decide), if_pos trivial, if_neg htotal, if_neg hend, drop_left]
  rfl

def oneByteDownload : MetadataState :=
  ⟨.leech, [], true, [0], 0, true⟩

/-- The index `2 ^ 50` wraps around to offset zero, so its byte is taken for that of piece zero; the
    index `-1` with a full piece ends at zero, so the check accepts it and the copy leaves the
    buffer. -/
theorem handle_wraps :
    oneByteDownload.handle (fun _ => true) 3 (metadataMessage (2 ^ 50) 1 [42]) =
      (.ok (.copied (2 ^ 50) 0 [42] true),
        { oneByteDownload with metadataBuffer := [42], metadataPiecesReceived := 1 }) ∧
    ¬ oneByteDownload.WriteSafe (fun _ => true) 3 (metadataMessage (2 ^ 50) 1 [42]) ∧
    (oneByteDownload.handle (fun _ => true) 3
      (metadataMessage (-1) 1 (replicate 16384 0))).1 = .error .undefinedBehaviour := by
  have hwrap : oneByteDownload.handle (fun _ => true) 3 (metadataMessage (2 ^ 50) 1 [42]) =
      (.ok (.copied (2 ^ 50) 0 [42] true),
        { oneByteDownload with metadataBuffer := [42], metadataPiecesReceived := 1 }) := by
    rw [handle_data (fun _ => true) 3 rfl rfl
      (parseMetadata_message (2 ^ 50) 1 [42] (by decide) nofun)]
    decide +kernel
  refine ⟨hwrap, ?_, ?_⟩
  · intro hsafe
    have hplace := (hsafe.2 _ _ _ _ (congrArg Prod.fst hwrap)).2.1
    exact absurd hplace (by decide +kernel)
  · have hfull : replicate 16384 (0 : UInt8) ≠ [] := by
      rw [replicate_succ]
      exact nofun
    rw [handle_data (fun _ => true) 3 rfl rfl
      (parseMetadata_message (-1) 1 (replicate 16384 0) (by decide) hfull),
      length_replicate, if_pos (by decide +kernel), if_neg (by decide +kernel)]

theorem metadata_write_safe_zero :
    oneByteDownload.WriteSafe (fun _ => true) 3 (metadataMessage 0 1 [42]) := by
  rw [metadata_write_safe_iff _ _ _ rfl (by decide)]
  intro piece totalSize rawPiece hmsg _
  rw [parseMetadata_message 0 1 [42] (by decide) nofun] at hmsg
  obtain ⟨rfl, -, rfl⟩ := MetadataMessage.data.inj (Option.some.inj (ok.inj hmsg))
  exact .inl (by decide +kernel)

end P2P
