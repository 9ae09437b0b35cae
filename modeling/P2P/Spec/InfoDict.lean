import Mathlib.Data.UInt
import P2P.Spec.MetadataLoad

/-!
# What the loader reads from an info dictionary

`populate_torrent_info_from_dict` checks the types of the entries and the length of the hashes only.
-/

namespace P2P

open Bencode Assoc Throwing Prod List

structure FileEntry where
  length : Int64
  path : List Bytes

def joined (parts : List Bytes) : PosixPath :=
  parts.foldl (fun p part => p.append ⟨part⟩) PosixPath.empty

def FileEntry.info (e : FileEntry) : FileInfo where
  path := joined e.path
  size := e.length.toUInt64

def FileEntry.ReadFrom (e : FileEntry) (v : Value) : Prop :=
  ∃ fileDict, v = .dict fileDict ∧
    find? fileDict (Bytes.ascii "length") = some (.int e.length) ∧
    find? fileDict (Bytes.ascii "path") = some (.list (e.path.map .str))

inductive FilesSource (d : Dict) (name : Bytes) : UInt64 → List FileInfo → Prop
  | single (length : Int64) (hlength : find? d (Bytes.ascii "length") = some (.int length)) :
    FilesSource d name length.toUInt64 [{ path := ⟨name⟩, size := length.toUInt64 }]
  | multi (vs : List Value) (entries : List FileEntry)
    (hlength : find? d (Bytes.ascii "length") = none)
    (hfiles : find? d (Bytes.ascii "files") = some (.list vs))
    (hentries : List.Forall₂ FileEntry.ReadFrom entries vs) :
    FilesSource d name (entries.map fun e => e.length.toUInt64).sum (entries.map FileEntry.info)

structure InfoSource (d : Dict) (info : TorrentInfo) : Prop where
  name : find? d (Bytes.ascii "name") = some (.str info.name)
  pieceLength : ∃ length : Int64,
    find? d (Bytes.ascii "piece length") = some (.int length) ∧
      info.pieceSize = length.toUInt64.toUInt32
  pieces : find? d (Bytes.ascii "pieces") = some (.str info.pieces)
  hashes : info.pieces.length % 20 = 0
  files : FilesSource d info.name info.totalSize info.files

section Readers

variable {σ : Type} {s s' : σ} {d : Dict} {key : String} {v : Value}

theorem dictAt_state (h : (dictAt d key).run.run s = (.ok v, s')) : s' = s := by
  unfold dictAt at h
  split at h
  · exact (mk.inj h).2.symm
  · exact nomatch (mk.inj h).1

theorem getString_ok {b : Bytes} (h : (getString v).run.run s = (.ok b, s')) :
    v = .str b ∧ s' = s := by
  cases v with
  | str a =>
    obtain ⟨hb, hs⟩ := mk.inj h
    exact ⟨congrArg Value.str (Except.ok.inj hb), hs.symm⟩
  | int | list | dict => exact nomatch (mk.inj h).1

theorem getInteger_ok {i : Int64} (h : (getInteger v).run.run s = (.ok i, s')) :
    v = .int i ∧ s' = s := by
  cases v with
  | int j =>
    obtain ⟨hi, hs⟩ := mk.inj h
    exact ⟨congrArg Value.int (Except.ok.inj hi), hs.symm⟩
  | str | list | dict => exact nomatch (mk.inj h).1

theorem derefList_ok {l : List Value} (h : (derefList v).run.run s = (.ok l, s')) :
    v = .list l ∧ s' = s := by
  cases v with
  | list l' =>
    obtain ⟨hl, hs⟩ := mk.inj h
    exact ⟨congrArg Value.list (Except.ok.inj hl), hs.symm⟩
  | int | str | dict => exact nomatch (mk.inj h).1

theorem derefDict_ok {fd : Dict} (h : (derefDict v).run.run s = (.ok fd, s')) :
    v = .dict fd ∧ s' = s := by
  cases v with
  | dict d' =>
    obtain ⟨hd, hs⟩ := mk.inj h
    exact ⟨congrArg Value.dict (Except.ok.inj hd), hs.symm⟩
  | int | str | list => exact nomatch (mk.inj h).1

variable {β : Type} {b : β}

theorem readAt_ok {γ : Type} {get : Value → Throwing σ γ} {kind : γ → Value}
    (hkind : ∀ {v : Value} {s s' : σ} {a : γ}, (get v).run.run s = (.ok a, s') →
      v = kind a ∧ s' = s) {f : γ → Throwing σ β}
    (h : (dictAt d key >>= fun v => get v >>= f).run.run s = (.ok b, s')) :
    ∃ a, find? d (Bytes.ascii key) = some (kind a) ∧ (f a).run.run s = (.ok b, s') := by
  obtain ⟨v, s₁, hat, h₁⟩ := bind_ok h
  obtain ⟨a, s₂, hget, h₂⟩ := bind_ok h₁
  have hfind := dictAt_ok hat
  -- reading changes nothing
  obtain rfl := dictAt_state hat
  obtain ⟨rfl, rfl⟩ := hkind hget
  exact ⟨a, hfind, h₂⟩

theorem stringAt_ok {f : Bytes → Throwing σ β}
    (h : (dictAt d key >>= fun v => getString v >>= f).run.run s = (.ok b, s')) :
    ∃ a, find? d (Bytes.ascii key) = some (.str a) ∧ (f a).run.run s = (.ok b, s') :=
  readAt_ok getString_ok h

theorem integerAt_ok {f : Int64 → Throwing σ β}
    (h : (dictAt d key >>= fun v => getInteger v >>= f).run.run s = (.ok b, s')) :
    ∃ i, find? d (Bytes.ascii key) = some (.int i) ∧ (f i).run.run s = (.ok b, s') :=
  readAt_ok getInteger_ok h

theorem listAt_ok {f : List Value → Throwing σ β}
    (h : (dictAt d key >>= fun v => derefList v >>= f).run.run s = (.ok b, s')) :
    ∃ l, find? d (Bytes.ascii key) = some (.list l) ∧ (f l).run.run s = (.ok b, s') :=
  readAt_ok derefList_ok h

theorem modify_ok {g : σ → σ} {f : PUnit → Throwing σ β}
    (h : (modify g >>= f).run.run s = (.ok b, s')) : (f ()).run.run (g s) = (.ok b, s') := by
  rwa [run_bind, run_modify] at h

end Readers

theorem joinPath_ok : ∀ (vs : List Value) (p q : PosixPath) (s s' : TorrentInfo),
    (joinPath vs p).run.run s = (.ok q, s') →
    ∃ parts : List Bytes, vs = parts.map .str ∧
      q = parts.foldl (fun p part => p.append ⟨part⟩) p ∧ s' = s
  | [], p, q, s, s', h => by
    obtain ⟨hq, hs⟩ := mk.inj h
    exact ⟨[], rfl, (Except.ok.inj hq).symm, hs.symm⟩
  | v :: vs, p, q, s, s', h => by
    rw [joinPath] at h
    obtain ⟨part, s₁, hpart, h⟩ := bind_ok h
    obtain ⟨rfl, rfl⟩ := getString_ok hpart
    obtain ⟨parts, rfl, rfl, rfl⟩ := joinPath_ok vs _ q _ s' h
    exact ⟨part :: parts, rfl, rfl, rfl⟩

theorem populateFiles_ok : ∀ (vs : List Value) (s s' : TorrentInfo),
    (populateFiles vs).run.run s = (.ok (), s') →
    ∃ entries, List.Forall₂ FileEntry.ReadFrom entries vs ∧
      s' = { s with
        files := s.files ++ entries.map FileEntry.info
        totalSize := s.totalSize + (entries.map fun e => e.length.toUInt64).sum }
  | [], s, s', h => by
    refine ⟨[], .nil, ?_⟩
    rw [← (mk.inj h).2, List.map_nil, List.map_nil, List.append_nil, List.sum_nil, UInt64.add_zero]
  | v :: vs, s, s', h => by
    rw [populateFiles] at h
    -- one round reads the length and the path and appends a file
    obtain ⟨fileDict, s₁, hdict, h₁⟩ := bind_ok h
    obtain ⟨rfl, rfl⟩ := derefDict_ok hdict
    obtain ⟨length, hlength, h₂⟩ := integerAt_ok h₁
    obtain ⟨pathList, hpath, h₃⟩ := listAt_ok h₂
    obtain ⟨filePath, s₂, hjoin, h₄⟩ := bind_ok h₃
    obtain ⟨parts, rfl, rfl, rfl⟩ := joinPath_ok _ _ _ _ _ hjoin
    obtain ⟨entries, hentries, rfl⟩ := populateFiles_ok vs _ s' (modify_ok h₄)
    refine ⟨⟨length, parts⟩ :: entries, .cons ⟨fileDict, rfl, hlength, hpath⟩ hentries, ?_⟩
    rw [List.map_cons, List.map_cons, List.sum_cons, ← UInt64.add_assoc]
    simp only [append_assoc, singleton_append]
    rfl

theorem populates_source {d : Dict} (hpop : Populates d) : InfoSource d (populated d) := by
  have h : (populateTorrentInfoFromDict d).run.run {} = (.ok (), populated d) :=
    Prod.ext hpop rfl
  generalize populated d = info at h ⊢
  unfold populateTorrentInfoFromDict at h
  obtain ⟨u, s₁, hset, h₁⟩ := bind_ok h
  obtain rfl : {} = s₁ := (mk.inj hset).2
  obtain ⟨name, hname, h₂⟩ := stringAt_ok h₁
  obtain ⟨pieceLength, hpieceLength, h₃⟩ := integerAt_ok (modify_ok h₂)
  obtain ⟨pieces, hpieces, h₄⟩ := stringAt_ok (modify_ok h₃)
  replace h₄ := modify_ok h₄
  -- the number of bytes is checked after the hashes have been stored
  rw [run_ite] at h₄
  split at h₄
  · exact nomatch (mk.inj h₄).1
  · next hhashes =>
    dsimp only at h₄
    rw [run_ite] at h₄
    split at h₄
    · -- a single file
      obtain ⟨length, hlength, h₅⟩ := integerAt_ok h₄
      obtain rfl := (mk.inj h₅).2
      exact ⟨hname, ⟨pieceLength, hpieceLength, rfl⟩, hpieces, not_not.mp hhashes,
        .single length hlength⟩
    · next hcount =>
      -- a list of files
      obtain ⟨vs, hfiles, h₅⟩ := listAt_ok h₄
      obtain ⟨entries, hentries, rfl⟩ := populateFiles_ok vs _ _ h₅
      have hlength : find? d (Bytes.ascii "length") = none := by
        rwa [dictCount, Bool.not_eq_true, Option.isSome_eq_false_iff, Option.isNone_iff_eq_none]
          at hcount
      have hsource : FilesSource d name _ _ := .multi vs entries hlength hfiles hentries
      refine ⟨hname, ⟨pieceLength, hpieceLength, rfl⟩, hpieces, not_not.mp hhashes, ?_⟩
      dsimp only
      rwa [UInt64.zero_add, List.nil_append]

end P2P
