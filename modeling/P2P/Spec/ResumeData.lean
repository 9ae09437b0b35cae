import P2P.Native.ResumeData
import P2P.Spec.BencodeComplete

/-!
# Reading resume data back

`serialize` writes the maps as dictionaries, in the order of their keys, and the counters as signed
integers.
-/

namespace P2P

open Bencode Assoc

namespace ResumeData

structure Fits (r : ResumeData) : Prop where
  haveBitfield : r.haveBitfield.length < 2 ^ 63
  paths : ∀ path mtime, r.fileMtimes.get? path = some mtime → path.length < 2 ^ 63
  pieces : ∀ piece bits, r.inProgressPieces.get? piece = some bits →
    piece.length < 2 ^ 63 ∧ bits.length < 2 ^ 63

theorem dictFrom_entries {α : Type} (m : OrdMap Bytes α) (value : α → Value) :
    dictFrom m.entries value = m.entries.map fun p => (p.1, value p.2) :=
  foldl_insert_of_sorted value [] (m.sorted_map value)

theorem wf_dictFrom {α : Type} {m : OrdMap Bytes α} {value : α → Value}
    (h : ∀ k a, m.get? k = some a → k.length < 2 ^ 63 ∧ (value a).WF) :
    (Value.dict (dictFrom m.entries value)).WF := by
  rw [dictFrom_entries]
  refine ⟨m.sorted_map value, Value.wfEntries_of_forall ?_⟩
  intro p hp
  obtain ⟨⟨k, a⟩, hmem, rfl⟩ := List.mem_map.mp hp
  exact h k a (m.mem_entries.mp hmem)

theorem wf_resumeDict {r : ResumeData} (h : r.Fits) : (Value.dict r.resumeDict).WF := by
  have hfiles : (Value.dict (dictFrom r.fileMtimes.entries fileDict)).WF := by
    refine wf_dictFrom fun path mtime hpath => ⟨h.paths path mtime hpath, ?_⟩
    exact ⟨sorted_insert _ _ List.Pairwise.nil, by decide, trivial, trivial⟩
  have hstats : (Value.dict r.statsDict).WF :=
    ⟨sorted_insert _ _ (sorted_insert _ _ List.Pairwise.nil), by decide, trivial,
      by decide, trivial, trivial⟩
  refine ⟨sorted_insert _ _ (sorted_insert _ _ (sorted_insert _ _
    (sorted_insert _ _ List.Pairwise.nil))), ?_⟩
  exact ⟨by decide, hfiles, by decide, h.haveBitfield, by decide, wf_dictFrom h.pieces,
    by decide, hstats, trivial⟩

section Read

variable {σ : Type} (s : σ)

theorem run_readMtimes : ∀ (entries : List (Bytes × Int64)) (mtimes : OrdMap Bytes Int64),
    (readMtimes (entries.map fun p => (p.1, fileDict p.2)) mtimes).run.run s =
      (.ok (entries.foldl (fun m p => m.insert p.1 p.2) mtimes), s)
  | [], _ => rfl
  | (path, mtime) :: entries, mtimes => run_readMtimes entries (mtimes.insert path mtime)

theorem run_readInProgress : ∀ (entries : List (Bytes × Bytes)) (pieces : OrdMap Bytes Bytes),
    (readInProgress (entries.map fun p => (p.1, .str p.2)) pieces).run.run s =
      (.ok (entries.foldl (fun m p => m.insert p.1 p.2) pieces), s)
  | [], _ => rfl
  | (piece, bits) :: entries, pieces => run_readInProgress entries (pieces.insert piece bits)

theorem run_fromDict (r : ResumeData) : (fromDict r.resumeDict).run.run s = (.ok r, s) := by
  have hhave : find? r.resumeDict (Bytes.ascii "have_bitfield") =
    some (.str r.haveBitfield) := rfl
  have hfiles : subDict r.resumeDict "files_metadata" =
    some (dictFrom r.fileMtimes.entries fileDict) := rfl
  have hstats : subDict r.resumeDict "stats" = some r.statsDict := rfl
  have hpieces : subDict r.resumeDict "in_progress" =
    some (dictFrom r.inProgressPieces.entries .str) := rfl
  have hup : find? r.statsDict (Bytes.ascii "uploaded") =
    some (.int r.totalUploaded.toInt64) := rfl
  have hdown : find? r.statsDict (Bytes.ascii "downloaded") =
    some (.int r.totalDownloaded.toInt64) := rfl
  simp only [fromDict, dictCount, dictAt, hhave, hfiles, hstats, hpieces, hup, hdown, getString,
    getInteger, pure_bind, Option.isSome_some, Bool.not_true, Bool.false_eq_true, if_false,
    dictFrom_entries, Throwing.run_bind, run_readMtimes, run_readInProgress,
    OrdMap.foldl_insert_entries, Throwing.run_pure]
  rfl

theorem deserialize_serialize {r : ResumeData} (h : r.Fits) :
    (deserialize r.serialize).run.run s = (.ok r, s) := by
  unfold deserialize serialize
  rw [decode_encode (wf_resumeDict h)]
  exact run_fromDict s r

end Read

end ResumeData

end P2P
