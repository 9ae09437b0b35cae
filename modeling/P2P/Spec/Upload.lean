import P2P.Native.TorrentSession
import P2P.Spec.DiskCache

/-!
# What a session uploads

`on_block_request` looks at the choke state of the connection only.
-/

namespace P2P

open Option FileManager

/-! ## What can be read -/

namespace FileManager

/-- `read_block` has the bytes: they are cached, or none are asked for, or all are in files. -/
def Servable (E : Env) (m : FileManager) (key : CacheKey) (length : Nat) : Prop :=
  (m.cached key length).isSome ∨ length = 0 ∨
    (m.ioCancelled = false ∧ ∀ g, key.piece * E.info.ps + key.offset ≤ g →
      g < key.piece * E.info.ps + key.offset + length →
      ∃ b, storedByte E m.disk E.info.files g = some b)

def DirtyMapped (E : Env) (m : FileManager) : Prop :=
  ∀ k, m.dirtyBlocks.get? k = some () → k.piece < E.maps.pieceToFiles.length

section Evict

variable {E : Env} {m : FileManager}

theorem dirtyBlocks_writeAll (key : CacheKey) (ws : List FileWrite) (m : FileManager) :
    (writeAll E key ws m).dirtyBlocks = m.dirtyBlocks := by
  obtain ⟨disk, log, h⟩ := writeAll_frame (E := E) key ws m
  rw [show writeAll E key ws m = _ from h m.dirtyBlocks]

variable {key : CacheKey}

theorem syncWriteBlock_some (hkey : key.piece < E.maps.pieceToFiles.length) (data : Bytes)
    (m : FileManager) :
    ∃ m', syncWriteBlock E key data m = some m' ∧ m'.dirtyBlocks = m.dirtyBlocks := by
  unfold syncWriteBlock
  split
  · exact ⟨m, rfl, rfl⟩
  · unfold writesOf
    rw [List.getElem?_eq_getElem hkey]
    exact ⟨_, rfl, dirtyBlocks_writeAll _ _ _⟩

theorem DirtyMapped.erase (h : DirtyMapped E m) (key : CacheKey) {m' : FileManager}
    (hm' : m'.dirtyBlocks = m.dirtyBlocks.erase key) : DirtyMapped E m' := by
  intro k hk
  rw [hm', OrdMap.get?_erase] at hk
  split at hk
  · cases hk
  · exact h k hk

theorem evictBack_some (h : DirtyMapped E m) (key : CacheKey) :
    ∃ m', evictBack E m key = some m' ∧ DirtyMapped E m' := by
  unfold evictBack
  dsimp only
  cases m.cache.get? key with
  | none => exact ⟨_, rfl, h.erase key rfl⟩
  | some data =>
    by_cases hdirty : m.dirtyBlocks.contains key = true
    · obtain ⟨u, hu⟩ := isSome_iff_exists.mp hdirty
      obtain ⟨m₁, hrun, hm₁⟩ := syncWriteBlock_some (h key hu) data
        { m with lruOrder := m.lruOrder.dropLast, lruIndex := m.lruIndex.erase key }
      simp only [if_pos hdirty, hrun, map_some, bind_eq_bind, bind_some]
      exact ⟨_, rfl, h.erase key (by rw [hm₁])⟩
    · simp only [if_neg hdirty, bind_eq_bind, bind_some]
      exact ⟨_, rfl, h⟩

theorem evictLoop_some (rounds : Nat) (h : DirtyMapped E m) :
    ∃ m', evictLoop E rounds m = some m' ∧ DirtyMapped E m' := by
  induction rounds generalizing m with
  | zero => exact ⟨m, rfl, h⟩
  | succ rounds ih =>
    unfold evictLoop
    split
    · split
      · exact ⟨m, rfl, h⟩
      · next key _ =>
        obtain ⟨m₁, hrun, hm₁⟩ := evictBack_some h key
        rw [hrun, bind_some]
        exact ih hm₁
    · exact ⟨m, rfl, h⟩

theorem cacheRead_some (h : DirtyMapped E m) (key : CacheKey) (block : Bytes) :
    ∃ m', cacheRead E m key block = some m' ∧ DirtyMapped E m' := by
  obtain ⟨m₁, hrun, hm₁⟩ := evictLoop_some m.lruOrder.length h
  unfold cacheRead evictIfNeeded
  rw [hrun]
  exact ⟨_, rfl, hm₁.erase key rfl⟩

theorem readFromDisk_ok_iff {length : Nat} (hsum : sizeSum E.info.files < 2 ^ 63)
    (hgo : key.piece * E.info.ps + key.offset + length < 2 ^ 64) (hlen : length < 2 ^ 32) :
    (∃ block, m.readFromDisk E key length = .ok block) ↔ length = 0 ∨
      (m.ioCancelled = false ∧ ∀ g, key.piece * E.info.ps + key.offset ≤ g →
        g < key.piece * E.info.ps + key.offset + length →
        ∃ b, storedByte E m.disk E.info.files g = some b) := by
  constructor
  · rintro ⟨block, hread⟩
    by_cases hpos : 0 < length
    · obtain ⟨hrunning, hsize, hbytes⟩ := (readFromDisk_eq_ok hsum hgo hlen hpos).mp hread
      refine .inr ⟨hrunning, fun g h₁ h₂ => ?_⟩
      obtain ⟨i, rfl⟩ := Nat.exists_eq_add_of_le h₁
      rw [← hbytes i (by omega)]
      exact ⟨_, List.getElem?_eq_getElem (by omega)⟩
    · exact .inl (by omega)
  · rintro (hzero | ⟨hrunning, hbytes⟩)
    · rw [hzero]
      exact ⟨[], readFromDisk_zero⟩
    · -- take the stored bytes as the content
      have hA : ∀ g, key.piece * E.info.ps + key.offset ≤ g →
          g < key.piece * E.info.ps + key.offset + length →
          storedByte E m.disk E.info.files g =
            some ((storedByte E m.disk E.info.files g).getD 0) := by
        intro g h₁ h₂
        obtain ⟨b, hb⟩ := hbytes g h₁ h₂
        rw [hb, getD_some]
      exact ⟨_, readFromDisk_ok hsum hgo hlen hrunning _ hA⟩

theorem readBlock_ok_iff {length : Nat} (h : DirtyMapped E m) (hsum : sizeSum E.info.files < 2 ^ 63)
    (hgo : key.piece * E.info.ps + key.offset + length < 2 ^ 64) (hlen : length < 2 ^ 32) :
    (∃ block m', m.readBlock E key length = some (.ok block, m')) ↔ m.Servable E key length := by
  unfold readBlock Servable
  cases hhit : m.cached key length with
  | some block => exact ⟨fun _ => .inl rfl, fun _ => ⟨block, _, rfl⟩⟩
  | none =>
    -- the cache has no answer, so it is that of the files
    rw [← readFromDisk_ok_iff hsum hgo hlen, or_iff_right (by rw [isSome_none]; decide)]
    dsimp only
    cases m.readFromDisk E key length with
    | error e => simp
    | ok block =>
      obtain ⟨m', hrun, -⟩ := cacheRead_some h key block
      refine ⟨fun _ => ⟨block, rfl⟩, fun _ => ⟨block, m', ?_⟩⟩
      simp only [hrun, map_some]

end Evict

end FileManager

/-- The dirty blocks belong to pieces, as every run of the cache keeps them. -/
theorem Torrent.Sane.dirtyMapped {T : Torrent} {m : FileManager} (hs : T.Sane m) :
    m.DirtyMapped T.toEnv := by
  intro k hk
  obtain ⟨data, -, hblock⟩ := hs.dirty k hk
  obtain ⟨maps, hmaps, hget⟩ := buildMaps_eq T.consistent.tiled
  obtain rfl := Except.ok.inj (T.maps_eq.symm.trans hmaps)
  exact (List.getElem?_eq_some_iff.mp (hget k.piece hblock.piece_lt)).1

/-! ## What is sent -/

namespace TorrentSession

def SendsPiece (E : Env) (s : TorrentSession) (conn : PeerConnection)
    (index begin length : UInt32) : Prop :=
  ∃ r s' conn', s.onBlockRequest E conn index begin length = some (r, s', conn') ∧
    ∃ payload, MessageType.piece.toByte :: payload ∈ conn'.sent.drop conn.sent.length

def Verified (info : TorrentInfo) (s : TorrentSession) (index begin length : UInt32) : Prop :=
  index.toNat < s.numPieces ∧ s.pieceStatus[index.toNat]? = some .have_ ∧
    begin.toNat + length.toNat ≤ info.pieceLen index.toNat

variable {E : Env} {s : TorrentSession} {conn : PeerConnection} {index begin length : UInt32}

theorem sendsPiece_iff_readBlock (hopen : conn.amChoking = false) :
    s.SendsPiece E conn index begin length ↔
      ∃ block m', s.manager.readBlock E ⟨index.toNat, begin.toNat⟩ length.toNat =
        some (.ok block, m') := by
  unfold SendsPiece onBlockRequest
  rw [hopen, if_neg Bool.false_ne_true]
  cases hread : s.manager.readBlock E ⟨index.toNat, begin.toNat⟩ length.toNat with
  | none => simp
  | some rm =>
    obtain ⟨r, m'⟩ := rm
    cases r with
    | error e =>
      -- nothing is sent
      constructor
      · intro hsends
        obtain ⟨r, s', conn', heq, payload, hsent⟩ := hsends
        obtain ⟨-, -, rfl⟩ := Prod.mk.inj (some.inj heq) |>.imp_right Prod.mk.inj
        rw [List.drop_length] at hsent
        exact nomatch hsent
      · intro hok
        obtain ⟨block, m'', heq⟩ := hok
        exact nomatch (Prod.mk.inj (some.inj heq)).1
    | ok block =>
      refine ⟨fun _ => ⟨block, m', rfl⟩, fun _ => ⟨_, _, _, rfl, ?_⟩⟩
      refine ⟨hostToNetworkLong index ++ hostToNetworkLong begin ++ block, ?_⟩
      show _ ∈ (conn.sent ++ [_]).drop conn.sent.length
      rw [List.drop_left]
      exact List.mem_singleton_self _

private theorem request_lt (ps index begin length : UInt32) :
    index.toNat * ps.toNat + begin.toNat + length.toNat < 2 ^ 64 := by
  have hi := index.toNat_lt
  have hp := ps.toNat_lt
  have hb := begin.toNat_lt
  have hl := length.toNat_lt
  have hmul : index.toNat * ps.toNat ≤ (2 ^ 32 - 1) * (2 ^ 32 - 1) :=
    Nat.mul_le_mul (by omega) (by omega)
  omega

theorem sendsPiece_iff (hopen : conn.amChoking = false) (hsum : sizeSum E.info.files < 2 ^ 63)
    (hdirty : s.manager.DirtyMapped E) :
    s.SendsPiece E conn index begin length ↔
      s.manager.Servable E ⟨index.toNat, begin.toNat⟩ length.toNat :=
  (sendsPiece_iff_readBlock hopen).trans
    (readBlock_ok_iff hdirty hsum (request_lt _ _ _ _) length.toNat_lt)

end TorrentSession

/-- An answer to an unchoked peer is sure to be verified data exactly when the request is for a
    verified piece, or its bytes cannot be read. -/
theorem upload_verified_iff (E : Env) (hsum : sizeSum E.info.files < 2 ^ 63)
    (s : TorrentSession) (hdirty : s.manager.DirtyMapped E) (conn : PeerConnection)
    (hopen : conn.amChoking = false) (index begin length : UInt32) :
    (s.SendsPiece E conn index begin length → s.Verified E.info index begin length) ↔
      s.Verified E.info index begin length ∨
        ¬ s.manager.Servable E ⟨index.toNat, begin.toNat⟩ length.toNat := by
  rw [TorrentSession.sendsPiece_iff hopen hsum hdirty]
  constructor
  · intro h
    by_cases hserv : s.manager.Servable E ⟨index.toNat, begin.toNat⟩ length.toNat
    · exact .inl (h hserv)
    · exact .inr hserv
  · intro h hserv
    cases h with
    | inl hver => exact hver
    | inr hnot => exact absurd hserv hnot

/-! ## A piece that is not there -/

def twoByteSession : TorrentSession where
  pieceStatus := [.needed]
  manager := .start zeroDisk

/-- An unchoked peer asks for the first byte of a piece that is still needed, and is sent the zero
    byte of the allocated file. -/
theorem onBlockRequest_unverified :
    (twoByteSession.onBlockRequest twoByteEnv
        { amChoking := false } 0 0 1).map (fun r => (r.1, r.2.2.sent)) =
      some (.ok (), [[7, 0, 0, 0, 0, 0, 0, 0, 0, 0]]) ∧
    twoByteSession.pieceStatus[0]? = some .needed := by
  exact ⟨by decide +kernel, rfl⟩

/-- A request behind the files, and one for a piece that the session has. -/
theorem upload_verified_served :
    ¬ twoByteSession.SendsPiece twoByteEnv { amChoking := false } 1 0 1 ∧
    let s := { twoByteSession with pieceStatus := [.have_] }
    s.SendsPiece twoByteEnv { amChoking := false } 0 0 1 ∧ s.Verified twoByteInfo 0 0 1 := by
  have hiff (s : TorrentSession) (hm : s.manager = .start zeroDisk) (index : UInt32) :=
    upload_verified_iff twoByteEnv (by decide) s (fun k hk => by rw [hm] at hk; cases hk)
      { amChoking := false } rfl index 0 1
  constructor
  · intro hsends
    have hver := (hiff twoByteSession rfl 1).mpr (.inr ?_) hsends
    · exact absurd hver.1 (by decide)
    · rintro (hhit | hzero | ⟨-, hbytes⟩)
      · cases hhit
      · cases hzero
      · obtain ⟨b, hb⟩ := hbytes 2 (by decide) (by decide)
        cases hb
  · intro s
    have hsends : s.SendsPiece twoByteEnv { amChoking := false } 0 0 1 :=
      ⟨_, _, _, rfl, [0, 0, 0, 0, 0, 0, 0, 0, 0], by decide +kernel⟩
    exact ⟨hsends, (hiff s rfl 0).mpr (.inl ⟨by decide, rfl, by decide⟩) hsends⟩

end P2P
