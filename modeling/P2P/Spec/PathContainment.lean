import P2P.Spec.InfoDict

/-!
# Where the files of a torrent are stored

`get_full_path_for_file` appends the names in an info dictionary to the directory as they are: `..`
leads out of it and an absolute name replaces it.
-/

namespace P2P

open Bencode PosixPath List Bytes

/-! ## Names that stay below -/

/-- The name of a torrent and the components behind it are relative and descend. -/
def SafePath (name : Bytes) (parts : List Bytes) : Prop :=
  (∀ part ∈ name :: parts, part.head? ≠ some separator) ∧
    Descends ((name :: parts).flatMap fun part => (mk part).components)

instance (name : Bytes) (parts : List Bytes) : Decidable (SafePath name parts) :=
  inferInstanceAs (Decidable (_ ∧ _))

def dictName (d : Dict) : Bytes :=
  match Assoc.find? d (Bytes.ascii "name") with
  | some (.str name) => name
  | _ => []

def entryPath : Value → List Bytes
  | .dict fileDict =>
    match Assoc.find? fileDict (Bytes.ascii "path") with
    | some (.list parts) => parts.filterMap fun
      | .str part => some part
      | _ => none
    | _ => []
  | _ => []

def filePaths (d : Dict) : List (List Bytes) :=
  match Assoc.find? d (Bytes.ascii "length"), Assoc.find? d (Bytes.ascii "files") with
  | none, some (.list vs) => vs.map fun v => if vs.length > 1 then entryPath v else []
  | _, _ => [[]]

/-! ## The joined path -/

theorem isAbsolute_joined (parts : List Bytes) :
    (joined parts).isAbsolute = parts.any fun part => (mk part).isAbsolute := by
  have h := isAbsolute_foldl (parts.map mk) empty
  rw [foldl_map, any_map] at h
  exact h

theorem components_joined {parts : List Bytes}
    (hrel : ∀ part ∈ parts, (mk part).isAbsolute = false) :
    (joined parts).components = parts.flatMap fun part => (mk part).components := by
  have hmap : ∀ q ∈ parts.map mk, q.isAbsolute = false := by
    simpa using hrel
  have h := components_foldl hmap empty
  rw [foldl_map, flatMap_map] at h
  exact h

theorem isAbsolute_eq_false_iff (part : Bytes) :
    (mk part).isAbsolute = false ↔ part.head? ≠ some separator := by
  unfold isAbsolute
  rw [beq_eq_false_iff_ne]

theorem contained_fullPath_iff (name : Bytes) (parts : List Bytes) :
    (∀ dir : PosixPath, Contained dir ((dir.append ⟨name⟩).append (joined parts))) ↔
      SafePath name parts := by
  -- two paths are appended; the second is itself made of the components
  have h := contained_foldl_iff [⟨name⟩, joined parts]
  simp only [foldl_cons, foldl_nil] at h
  rw [h]
  unfold SafePath
  simp only [forall_mem_cons, flatMap_cons, flatMap_nil, append_nil,
    isAbsolute_joined, any_eq_false, Bool.not_eq_true, isAbsolute_eq_false_iff,
    not_mem_nil, false_implies, implies_true, and_true]
  constructor
  · rintro ⟨⟨hname, hparts⟩, hdesc⟩
    rw [components_joined fun part hpart => (isAbsolute_eq_false_iff part).mpr (hparts part hpart)]
      at hdesc
    exact ⟨⟨hname, hparts⟩, hdesc⟩
  · rintro ⟨⟨hname, hparts⟩, hdesc⟩
    rw [components_joined fun part hpart => (isAbsolute_eq_false_iff part).mpr (hparts part hpart)]
    exact ⟨⟨hname, hparts⟩, hdesc⟩

theorem contained_name_iff (name : Bytes) :
    (∀ dir : PosixPath, Contained dir (dir.append ⟨name⟩)) ↔ SafePath name [] := by
  have h := contained_foldl_iff [⟨name⟩]
  simp only [foldl_cons, foldl_nil, forall_mem_singleton] at h
  rw [h, isAbsolute_eq_false_iff]
  unfold SafePath
  rw [forall_mem_singleton]
  rfl

/-! ## Accepted dictionaries -/

theorem FileEntry.ReadFrom.entryPath {e : FileEntry} {v : Value} (h : e.ReadFrom v) :
    entryPath v = e.path := by
  obtain ⟨fileDict, rfl, -, hpath⟩ := h
  unfold P2P.entryPath
  simp only [hpath, filterMap_map]
  exact filterMap_some

theorem forall_env_iff (info : TorrentInfo) :
    (∀ E : Env, E.info = info → ∀ file ∈ E.info.files,
      Contained E.savePath (E.getFullPathForFile file)) ↔
    ∀ file ∈ info.files, ∀ dir : PosixPath, Contained dir
      (if info.files.length > 1 then (dir.append ⟨info.name⟩).append file.path
        else dir.append ⟨info.name⟩) := by
  constructor
  · intro hall file hfile dir
    -- maps and disk do not matter for a path
    exact hall ⟨info, ⟨[], []⟩, dir, fun _ => 0, fun _ => .success⟩ rfl file hfile
  · rintro hall E rfl file hfile
    exact hall file hfile E.savePath

theorem contained_file_iff (name : Bytes) (parts : List Bytes) (several : Prop)
    [Decidable several] :
    (∀ dir : PosixPath, Contained dir
      (if several then (dir.append ⟨name⟩).append (joined parts) else dir.append ⟨name⟩)) ↔
    SafePath name (if several then parts else []) := by
  split
  · exact contained_fullPath_iff name parts
  · exact contained_name_iff name

theorem filePaths_multi {d : Dict} {vs : List Value} {entries : List FileEntry}
    (hlength : Assoc.find? d (ascii "length") = none)
    (hfiles : Assoc.find? d (ascii "files") = some (.list vs))
    (hentries : List.Forall₂ FileEntry.ReadFrom entries vs) :
    filePaths d = entries.map fun e => if entries.length > 1 then e.path else [] := by
  unfold filePaths
  simp only [hlength, hfiles]
  rw [← hentries.length_eq]
  -- the number of files stays fixed in the induction
  generalize entries.length = count
  clear hfiles
  induction hentries with
  | nil => rfl
  | cons h _ ih => rw [map_cons, map_cons, h.entryPath, ih]

/-- Every file of an accepted dictionary stays in the directory exactly when names are safe. -/
theorem accepted_contained_iff (d : Dict) (hpop : Populates d) :
    (∀ E : Env, E.info = populated d → ∀ file ∈ E.info.files,
      Contained E.savePath (E.getFullPathForFile file)) ↔
    ∀ parts ∈ filePaths d, SafePath (dictName d) parts := by
  have hsource := populates_source hpop
  have hname : dictName d = (populated d).name := by
    unfold dictName
    rw [hsource.name]
  rw [forall_env_iff, hname]
  have hfiles := hsource.files
  generalize (populated d).name = name at hfiles ⊢
  generalize (populated d).totalSize = total, (populated d).files = files at hfiles ⊢
  cases hfiles with
  | single length hlength =>
    have hpaths : filePaths d = [[]] := by
      unfold filePaths
      rw [hlength]
    rw [hpaths, forall_mem_singleton, forall_mem_singleton]
    exact contained_name_iff name
  | multi vs entries hlength hlist hentries =>
    rw [filePaths_multi hlength hlist hentries, forall_mem_map, forall_mem_map,
      length_map]
    exact forall₂_congr fun e _ => contained_file_iff name e.path _

/-! ## Torrents that keep their files below and torrents that do not -/

def namedDict (name : Bytes) : Dict :=
  [(Bytes.ascii "length", .int 0), (Bytes.ascii "name", .str name),
    (Bytes.ascii "piece length", .int 16384), (Bytes.ascii "pieces", .str [])]

def twoFilesDict (parts₁ parts₂ : List Bytes) : Dict :=
  [(Bytes.ascii "files", .list [
      .dict [(Bytes.ascii "length", .int 0), (Bytes.ascii "path", .list (parts₁.map .str))],
      .dict [(Bytes.ascii "length", .int 0), (Bytes.ascii "path", .list (parts₂.map .str))]]),
    (Bytes.ascii "name", .str (Bytes.ascii "a")),
    (Bytes.ascii "piece length", .int 16384), (Bytes.ascii "pieces", .str [])]

def homeEnv (d : Dict) : Env :=
  ⟨populated d, ⟨[], []⟩, ⟨Bytes.ascii "/home/d"⟩, fun _ => 0, fun _ => .success⟩

/-- An accepted dictionary with a file that is not stored below `/home/d`. -/
def Escapes (d : Dict) (path : PosixPath) : Prop :=
  Populates d ∧ path ∈ (homeEnv d).info.files.map (homeEnv d).getFullPathForFile ∧
    ¬ Contained (homeEnv d).savePath path

theorem accepted_contained_two_files :
    Populates (twoFilesDict [ascii "b"] [ascii "c/..", ascii "d"]) ∧
      ∀ E : Env, E.info =
          populated (twoFilesDict [ascii "b"] [ascii "c/..", ascii "d"]) →
        ∀ file ∈ E.info.files, Contained E.savePath (E.getFullPathForFile file) := by
  have hpop : Populates (twoFilesDict [ascii "b"] [ascii "c/..", ascii "d"]) :=
    rfl
  exact ⟨hpop, (accepted_contained_iff _ hpop).mpr (by decide)⟩

/-- Accepted dictionaries whose files are stored outside: the name `..`, an absolute name, a path
    that climbs out, and one with an absolute component. -/
theorem accepted_escapes :
    Escapes (namedDict (ascii "..")) ⟨ascii "/home/d/.."⟩ ∧
    Escapes (namedDict (ascii "/x")) ⟨ascii "/x"⟩ ∧
    Escapes (twoFilesDict [ascii "b"] [ascii "..", ascii "..", ascii "x"])
      ⟨ascii "/home/d/a/../../x"⟩ ∧
    Escapes (twoFilesDict [ascii "b"] [ascii "c", ascii "/x"])
      ⟨ascii "/x"⟩ := by
  refine ⟨⟨rfl, by decide, ?_⟩, ⟨rfl, by decide, ?_⟩, ⟨rfl, by decide, ?_⟩,
    ⟨rfl, by decide, ?_⟩⟩ <;>
  · intro h
    exact absurd h.length_lt (by decide)

end P2P
