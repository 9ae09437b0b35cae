import P2P.Native.SessionState
import P2P.Spec.InfoHash

/-!
# Loading metadata that turns out to be bad

`load_metadata` throws when its bytes are no info dictionary or have the wrong hash.
-/

namespace P2P

open Bencode Bytes

/-- What `populate_torrent_info_from_dict` has written when it returns or throws. -/
def populated (d : Dict) : TorrentInfo := ((populateTorrentInfoFromDict d).run.run {}).2

def Populates (d : Dict) : Prop := ((populateTorrentInfoFromDict d).run.run {}).1 = .ok ()

section Load

variable {sha1 : Bytes → Bytes} {b : Bytes}

theorem loadFromInfoBytes_dict {d : Dict} (hdec : decode b = .ok (.dict d)) (m : MetaInfo) :
    loadFromInfoBytes sha1 b m =
      (caught ((populateTorrentInfoFromDict d).run.run {}).1, ⟨populated d, sha1 b, b⟩) := by
  simp only [loadFromInfoBytes, hdec, MetaInfo.populate, populate_eq d m.info {}]
  rfl

theorem loadFromInfoBytes_other (hdec : ∀ d, decode b ≠ .ok (.dict d)) (m : MetaInfo) :
    loadFromInfoBytes sha1 b m = (some false, m) := by
  unfold loadFromInfoBytes
  split
  · next d h => exact absurd h (hdec d)
  · rfl

namespace SessionState

theorem loadMetadata_ok {d : Dict} (hdec : decode b = .ok (.dict d)) (hpop : Populates d)
    (s : SessionState) (hhash : s.metaInfo.infoHashBytes = sha1 b) :
    s.loadMetadata sha1 b = (.ok (), { s with
      metaInfo := ⟨populated d, sha1 b, b⟩
      numPieces := (populated d).numPieces
      pieceStatus := List.replicate (populated d).numPieces .needed }) := by
  unfold loadMetadata
  unfold Populates at hpop
  rw [loadFromInfoBytes_dict hdec, hpop]
  simp only [caught, hhash, ne_eq, not_true_eq_false, and_false, if_false]

theorem loadMetadata_other (hdec : ∀ d, decode b ≠ .ok (.dict d)) (s : SessionState) :
    s.loadMetadata sha1 b =
      (.error (.runtimeError "Failed to load persisted magnet metadata."), s) := by
  unfold loadMetadata
  rw [loadFromInfoBytes_other hdec]

theorem loadMetadata_error {d : Dict} {e : Fault} {s : SessionState}
    (hdec : decode b = .ok (.dict d)) (herr : (s.loadMetadata sha1 b).1 = .error e) :
    (s.loadMetadata sha1 b).2 = { s with metaInfo := ⟨populated d, sha1 b, b⟩ } := by
  unfold loadMetadata at herr ⊢
  rw [loadFromInfoBytes_dict hdec] at herr ⊢
  cases hres : caught ((populateTorrentInfoFromDict d).run.run {}).1 with
  | none => rfl
  | some loaded =>
    rw [hres] at herr
    cases loaded with
    | false => rfl
    | true =>
      -- only the comparison of the hashes is left
      dsimp only at herr ⊢
      split at herr
      · next hne => rw [if_pos hne]
      · exact nomatch herr

end SessionState

end Load

/-- A `load_metadata` that throws leaves the session as it was exactly when its bytes are no
    dictionary, or the session holds them, their hash and what can be read from them already. -/
theorem loadMetadata_unchanged_iff (sha1 : Bytes → Bytes) (s : SessionState) (b : Bytes)
    (what : String) (hthrow : (s.loadMetadata sha1 b).1 = .error (.runtimeError what)) :
    (s.loadMetadata sha1 b).2 = s ↔
      ∀ d, decode b = .ok (.dict d) → s.metaInfo = ⟨populated d, sha1 b, b⟩ := by
  constructor
  · intro hsame d hdec
    rw [SessionState.loadMetadata_error hdec hthrow] at hsame
    exact (congrArg SessionState.metaInfo hsame).symm
  · intro hheld
    by_cases hdict : ∃ d, decode b = .ok (.dict d)
    · obtain ⟨d, hdec⟩ := hdict
      rw [SessionState.loadMetadata_error hdec hthrow, ← hheld d hdec]
    · rw [SessionState.loadMetadata_other (not_exists.mp hdict)]

def oneByteMagnet : SessionState := .ofMagnet (oneByteInfo (Bytes.ascii "1")) []

theorem loadMetadata_unchanged_garbage :
    (oneByteMagnet.loadMetadata id (ascii "x")).1 =
        .error (.runtimeError "Failed to load persisted magnet metadata.") ∧
      (oneByteMagnet.loadMetadata id (ascii "x")).2 = oneByteMagnet := by
  have hthrow : (oneByteMagnet.loadMetadata id (ascii "x")).1 =
      .error (.runtimeError "Failed to load persisted magnet metadata.") := by decide +kernel
  have hdec : decode (ascii "x") = .error .unknownType := rfl
  refine ⟨hthrow, (loadMetadata_unchanged_iff id _ _ _ hthrow).mpr ?_⟩
  intro d hd
  rw [hdec] at hd
  cases hd

/-- The empty dictionary is refused, but its hash replaces the one the session waits for, and the
    true dictionary is then refused. -/
theorem loadMetadata_clobbers :
    (oneByteMagnet.loadMetadata id (ascii "de")).1 =
        .error (.runtimeError "Failed to load persisted magnet metadata.") ∧
      (oneByteMagnet.loadMetadata id (ascii "de")).2.metaInfo =
        ⟨{}, ascii "de", ascii "de"⟩ ∧
      ((oneByteMagnet.loadMetadata id (ascii "de")).2.loadMetadata id
        (oneByteInfo (ascii "1"))).1 =
        .error (.runtimeError "Persisted magnet metadata info hash mismatch.") ∧
      (oneByteMagnet.loadMetadata id (oneByteInfo (ascii "2"))).1 =
        .error (.runtimeError "Persisted magnet metadata info hash mismatch.") ∧
      (oneByteMagnet.loadMetadata id (oneByteInfo (ascii "2"))).2.metaInfo.info.totalSize =
        2 := by
  refine ⟨?_, ?_, ?_, ?_, ?_⟩
  · decide +kernel
  · decide +kernel
  · decide +kernel
  · decide +kernel
  · decide +kernel

end P2P
