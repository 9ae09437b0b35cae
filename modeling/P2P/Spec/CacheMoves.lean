import P2P.Spec.DiskBytes

/-!
# What the cache operations do

Every operation is a sequence of moves: a dirty block is written back, a block that is not dirty is
forgotten, the bookkeeping changes.
-/

namespace P2P

open FileManager OrdMap Option

namespace Torrent

variable (T : Torrent)

def pos (k : CacheKey) : Nat := k.piece * T.info.ps + k.offset

def writes (k : CacheKey) (data : Bytes) : List FileWrite :=
  fileWrites T.toEnv (T.pos k) data T.info.files 0

/-- The state after the file writes of a block, whether they succeed or not. -/
def tryWrite (k : CacheKey) (data : Bytes) (m : FileManager) : FileManager :=
  writeAll T.toEnv k (T.writes k data) m

def wrote (k : CacheKey) (data : Bytes) (m : FileManager) : FileManager :=
  { m with
    disk := applyWrites T.toEnv m.disk (T.writes k data)
    log := writeEvents k (T.writes k data) ++ m.log }

/-- The file writes of a block have ended at one that failed: other files are as before. -/
structure Failed (k : CacheKey) (data : Bytes) (m m' : FileManager) : Prop where
  outcome : ∃ h n, T.outcome h = .failure n
  log : ∃ made w rest, T.writes k data = made ++ w :: rest ∧
    m'.log = .write k w false :: (writeEvents k made ++ m.log)
  stored : Stored T.toEnv m'.disk T.info.files
  disk : ∀ g, ¬ (T.pos k ≤ g ∧ g < T.pos k + data.length) →
    storedByte T.toEnv m'.disk T.info.files g = storedByte T.toEnv m.disk T.info.files g

/-- The state after the writes of a block that is no longer dirty. -/
def writeBack (k : CacheKey) (data : Bytes) (m : FileManager) : FileManager :=
  { T.tryWrite k data m with dirtyBlocks := m.dirtyBlocks.erase k }

structure IsBlock (k : CacheKey) (data : Bytes) : Prop where
  piece_lt : k.piece < T.info.numPieces
  aligned : k.offset % blockSize = 0
  offset_lt : k.offset < T.info.pieceLen k.piece
  length_eq : data.length = min blockSize (T.info.pieceLen k.piece - k.offset)

structure Sane (m : FileManager) : Prop where
  stored : Stored T.toEnv m.disk T.info.files
  dirty : ∀ k, m.dirtyBlocks.get? k = some () → ∃ data, m.cache.get? k = some data ∧
    T.IsBlock k data

inductive Move : FileManager → FileManager → Prop
  | admin {m m' : FileManager} (cache : m'.cache = m.cache)
      (dirty : m'.dirtyBlocks = m.dirtyBlocks) (disk : m'.disk = m.disk) (log : m'.log = m.log)
      (cancelled : m'.ioCancelled = m.ioCancelled) : Move m m'
  | writeBack {m : FileManager} (k : CacheKey) (data : Bytes)
      (dirty : m.dirtyBlocks.get? k = some ()) (cached : m.cache.get? k = some data) :
      Move m (T.writeBack k data m)
  | forget {m : FileManager} (k : CacheKey) (clean : m.dirtyBlocks.get? k = none) :
      Move m { m with cache := m.cache.erase k }
  | clean {m : FileManager} (k : CacheKey) (uncached : m.cache.get? k = none) :
      Move m { m with dirtyBlocks := m.dirtyBlocks.erase k }

abbrev Moves : FileManager → FileManager → Prop := Relation.ReflTransGen T.Move

end Torrent

structure Put (k : CacheKey) (data : Bytes) (m m' : FileManager) : Prop where
  cache : m'.cache = m.cache.insert k data
  dirty : m'.dirtyBlocks = m.dirtyBlocks.insert k ()
  disk : m'.disk = m.disk
  log : m'.log = .put k data :: m.log
  cancelled : m'.ioCancelled = m.ioCancelled

structure Inserted (k : CacheKey) (data : Bytes) (m m' : FileManager) : Prop where
  cache : m'.cache = m.cache.insert k data
  dirty : m'.dirtyBlocks = m.dirtyBlocks.erase k
  disk : m'.disk = m.disk
  log : m'.log = m.log
  cancelled : m'.ioCancelled = m.ioCancelled

section Moves

variable {T : Torrent} {m m' : FileManager} {k : CacheKey} {data : Bytes}

/-! ## The shape of blocks -/

namespace Torrent.IsBlock

theorem length_pos (h : T.IsBlock k data) : 0 < data.length := by
  have h₁ := h.length_eq
  have h₂ := h.offset_lt
  unfold blockSize at h₁
  omega

theorem length_le (h : T.IsBlock k data) : data.length ≤ blockSize := by
  rw [h.length_eq]
  exact Nat.min_le_left _ _

theorem within (h : T.IsBlock k data) : k.offset + data.length ≤ T.info.pieceLen k.piece := by
  have h₁ := h.length_eq
  have h₂ := h.offset_lt
  omega

end Torrent.IsBlock

theorem Torrent.Sane.isBlock (hs : T.Sane m) (hdirty : m.dirtyBlocks.get? k = some ())
    (hcache : m.cache.get? k = some data) : T.IsBlock k data := by
  obtain ⟨data', hcache', hblock⟩ := hs.dirty k hdirty
  rw [some.inj (hcache.symm.trans hcache')]
  exact hblock

/-! ## The writes of a block -/

theorem bytes_le_sizeSum {file : FileInfo} : ∀ {files : List FileInfo}, file ∈ files →
    file.bytes ≤ sizeSum files
  | f :: files, h => by
    rw [sizeSum_cons]
    cases List.mem_cons.mp h with
    | inl heq => rw [heq]; omega
    | inr hmem => have := bytes_le_sizeSum hmem; omega

theorem Torrent.exists_of_fits (hs : Stored T.toEnv m.disk T.info.files) {w : FileWrite}
    (hw : w.Fits T.toEnv T.info.files) :
    ∃ content, m.disk (T.resolve w.path) = some content ∧ w.offset ≤ content.length ∧
      w.offset < 2 ^ 63 := by
  obtain ⟨file, hf, hd, hpath, hoff⟩ := hw
  obtain ⟨content, hdisk, hlen⟩ := hs file hf hd
  have hsize := bytes_le_sizeSum hf
  rw [T.consistent.sum_eq] at hsize
  have := T.consistent.total_lt
  rw [hpath]
  exact ⟨content, hdisk, by omega, by omega⟩

theorem Torrent.writtenByte_writes {w : FileWrite} (hw : w ∈ T.writes k data) {g : Nat} {b : UInt8}
    (h : writtenByte T.toEnv w T.info.files g = some b) :
    T.pos k ≤ g ∧ g < T.pos k + data.length ∧ data[g - T.pos k]? = some b := by
  have hin := writtenByte_fileWrites T.info.files 0 g T.files_nodup hw h
  rw [Nat.zero_add] at hin
  have hlt := (List.getElem?_eq_some_iff.mp hin.2).1
  exact ⟨hin.1, by omega, hin.2⟩

theorem Torrent.tryWrite_frame (T : Torrent) (k : CacheKey) (data : Bytes) (m : FileManager) :
    ∃ disk log, T.tryWrite k data m = { m with disk := disk, log := log } := by
  obtain ⟨disk, log, h⟩ := writeAll_frame (E := T.toEnv) k (T.writes k data) m
  exact ⟨disk, log, h m.dirtyBlocks⟩

theorem Torrent.cache_writeBack : (T.writeBack k data m).cache = m.cache := by
  obtain ⟨disk, log, h⟩ := T.tryWrite_frame k data m
  unfold Torrent.writeBack
  rw [h]

theorem Torrent.dirtyBlocks_tryWrite : (T.tryWrite k data m).dirtyBlocks = m.dirtyBlocks := by
  obtain ⟨disk, log, h⟩ := T.tryWrite_frame k data m
  rw [h]

theorem Torrent.ioCancelled_tryWrite : (T.tryWrite k data m).ioCancelled = m.ioCancelled := by
  obtain ⟨disk, log, h⟩ := T.tryWrite_frame k data m
  rw [h]

theorem Torrent.tryWrite_dirtyBlocks (D : OrdMap CacheKey Unit) :
    T.tryWrite k data { m with dirtyBlocks := D } =
      { T.tryWrite k data m with dirtyBlocks := D } := by
  obtain ⟨disk, log, h⟩ := writeAll_frame (E := T.toEnv) k (T.writes k data) m
  have hm : T.tryWrite k data m = { m with disk := disk, log := log } := h m.dirtyBlocks
  rw [hm]
  exact h D

theorem Torrent.tryWrite_cases (hs : Stored T.toEnv m.disk T.info.files) :
    T.tryWrite k data m = T.wrote k data m ∨ T.Failed k data m (T.tryWrite k data m) := by
  have hfits : ∀ w ∈ T.writes k data, w.Fits T.toEnv T.info.files := fun w hw =>
    mem_fileWrites T.info.files 0 hw
  have hexist : ∀ w ∈ T.writes k data,
      (∃ content, m.disk (T.resolve w.path) = some content) ∧ w.offset < 2 ^ 63 := by
    intro w hw
    obtain ⟨content, hdisk, -, hoff⟩ := T.exists_of_fits hs (hfits w hw)
    exact ⟨⟨content, hdisk⟩, hoff⟩
  cases writeAll_cases (E := T.toEnv) k (T.writes k data) m hexist with
  | inl hall => exact .inl hall
  | inr hfail =>
    obtain ⟨made, w, rest, n, hws, ⟨h, hn⟩, heq⟩ := hfail
    have htry : T.tryWrite k data m = _ := heq
    refine .inr ⟨⟨h, n, hn⟩, ⟨made, w, rest, hws, by rw [htry]⟩, ?_, ?_⟩
    · rw [htry]
      exact hs.applyWrites _
    intro g hg
    rw [htry]
    -- what was written, in full or in part, lies inside the block
    have hmade : ∀ v ∈ made, v ∈ T.writes k data := fun v hv => by
      rw [hws]
      exact List.mem_append_left _ hv
    have hlast : w ∈ T.writes k data := by
      rw [hws]
      exact List.mem_append_right _ (List.mem_cons_self ..)
    have hnone : ∀ v ∈ T.writes k data, ∀ b, writtenByte T.toEnv v T.info.files g ≠ some b :=
      fun v hv b hb => hg ⟨(T.writtenByte_writes hv hb).1, (T.writtenByte_writes hv hb).2.1⟩
    apply storedByte_applyWrites _ _ hs
    · intro v hv
      cases List.mem_append.mp hv with
      | inl hv => exact hfits v (hmade v hv)
      | inr hv => rw [List.mem_singleton.mp hv]; exact hfits w hlast
    · intro v hv
      cases List.mem_append.mp hv with
      | inl hv => exact eq_none_iff_forall_ne_some.mpr (hnone v (hmade v hv))
      | inr hv =>
        rw [List.mem_singleton.mp hv]
        exact eq_none_iff_forall_ne_some.mpr fun b hb =>
          hnone w hlast b (writtenByte_take T.info.files g hb)

theorem Stored.tryWrite (hs : Stored T.toEnv m.disk T.info.files) :
    Stored T.toEnv (T.tryWrite k data m).disk T.info.files := by
  cases T.tryWrite_cases hs with
  | inl h => rw [h]; exact hs.applyWrites _
  | inr h => exact h.stored

/-! ## Moves keep the files and the dirty blocks in place -/

theorem Torrent.Move.cancelled (h : T.Move m m') : m'.ioCancelled = m.ioCancelled := by
  cases h with
  | admin _ _ _ _ cancelled => exact cancelled
  | writeBack => exact T.ioCancelled_tryWrite
  | forget => rfl
  | clean => rfl

theorem Torrent.Move.dirty_of_dirty (h : T.Move m m') (hk : m'.dirtyBlocks.get? k = some ()) :
    m.dirtyBlocks.get? k = some () := by
  cases h with
  | admin _ dirty => rwa [dirty] at hk
  | writeBack j =>
    rw [show (T.writeBack j _ m).dirtyBlocks = m.dirtyBlocks.erase j from rfl] at hk
    exact (get?_erase_eq_some hk).2
  | forget => exact hk
  | clean => exact (get?_erase_eq_some hk).2

theorem Torrent.Move.cached_of_cached (h : T.Move m m') (hk : m'.cache.get? k = some data) :
    m.cache.get? k = some data := by
  cases h with
  | admin cache => rwa [cache] at hk
  | writeBack => rwa [T.cache_writeBack] at hk
  | forget => exact (get?_erase_eq_some hk).2
  | clean => exact hk

theorem Torrent.Move.sane (h : T.Move m m') (hs : T.Sane m) : T.Sane m' := by
  constructor
  · cases h with
    | admin _ _ disk => rw [disk]; exact hs.stored
    | writeBack => exact hs.stored.tryWrite
    | forget => exact hs.stored
    | clean => exact hs.stored
  · intro j hj
    -- what is dirty now was dirty before, and its block has stayed in the cache
    obtain ⟨d, hcache, hblock⟩ := hs.dirty j (h.dirty_of_dirty hj)
    refine ⟨d, ?_, hblock⟩
    cases h with
    | admin cache => rw [cache]; exact hcache
    | writeBack => rw [T.cache_writeBack]; exact hcache
    | forget i clean =>
      have hne : j ≠ i := by
        rintro rfl
        exact absurd (clean.symm.trans hj) (by simp)
      rw [get?_erase, if_neg hne]
      exact hcache
    | clean => exact hcache

theorem Torrent.Moves.cancelled (h : T.Moves m m') : m'.ioCancelled = m.ioCancelled := by
  induction h with
  | refl => rfl
  | tail _ step ih => rw [step.cancelled, ih]

theorem Torrent.Moves.dirty_of_dirty (h : T.Moves m m')
    (hk : m'.dirtyBlocks.get? k = some ()) : m.dirtyBlocks.get? k = some () := by
  induction h with
  | refl => exact hk
  | tail _ step ih => exact ih (step.dirty_of_dirty hk)

theorem Torrent.Moves.sane (h : T.Moves m m') (hs : T.Sane m) : T.Sane m' := by
  induction h with
  | refl => exact hs
  | tail _ step ih => exact step.sane ih

theorem Torrent.Moves.invariant {P : FileManager → Prop}
    (hP : ∀ m m', T.Sane m → T.Move m m' → P m → P m') (h : T.Moves m m') (hs : T.Sane m)
    (hm : P m) : P m' := by
  induction h with
  | refl => exact hm
  | tail moves step ih => exact hP _ _ (Torrent.Moves.sane moves hs) step ih

/-! ## Writing blocks -/

theorem syncWriteBlock_eq (hb : T.IsBlock k data) :
    syncWriteBlock T.toEnv k data m = some (T.tryWrite k data m) := by
  have hne : data.isEmpty = false := by
    have := hb.length_pos
    cases data with
    | nil => exact absurd this (Nat.lt_irrefl _)
    | cons => rfl
  unfold syncWriteBlock
  rw [hne, if_neg Bool.false_ne_true,
    show writesOf T.toEnv k data = some (T.writes k data) from
      T.writesOf_eq hb.piece_lt hb.within, map_some]
  rfl

theorem syncFlushBlocks_eq : ∀ (blocks : List (CacheKey × Bytes)) (m : FileManager),
    (∀ b ∈ blocks, T.IsBlock b.1 b.2) →
    syncFlushBlocks T.toEnv blocks m = some (blocks.foldl (fun m b => T.tryWrite b.1 b.2 m) m)
  | [], _, _ => rfl
  | (k, data) :: blocks, m, hb => by
    unfold syncFlushBlocks
    rw [syncWriteBlock_eq (hb (k, data) (List.mem_cons_self ..)), bind_some,
      syncFlushBlocks_eq blocks _ fun b h => hb b (List.mem_cons_of_mem _ h)]
    rfl

theorem flushBlocks_eq : ∀ (blocks : List (CacheKey × Bytes)) (m : FileManager),
    m.ioCancelled = false → (∀ b ∈ blocks, T.IsBlock b.1 b.2) →
    flushBlocks T.toEnv blocks m = some (blocks.foldl (fun m b => T.tryWrite b.1 b.2 m) m)
  | [], _, _, _ => rfl
  | (k, data) :: blocks, m, hc, hb => by
    have hblock := hb (k, data) (List.mem_cons_self ..)
    unfold flushBlocks
    rw [show writesOf T.toEnv k data = some (T.writes k data) from
        T.writesOf_eq hblock.piece_lt hblock.within,
      map_some, asyncWriteAll_eq hc, bind_some]
    exact flushBlocks_eq blocks (T.tryWrite k data m) (T.ioCancelled_tryWrite.trans hc) fun b h =>
      hb b (List.mem_cons_of_mem _ h)

/-! ## Flushing -/

theorem mem_toFlush : (k, data) ∈ m.toFlush ↔
    m.dirtyBlocks.get? k = some () ∧ m.cache.get? k = some data := by
  unfold toFlush
  rw [List.mem_filterMap]
  constructor
  · intro h
    obtain ⟨⟨j, u⟩, hmem, heq⟩ := h
    obtain ⟨d, hd, hpair⟩ := map_eq_some_iff.mp heq
    obtain ⟨rfl, rfl⟩ := Prod.mk.inj hpair
    exact ⟨(m.dirtyBlocks.mem_entries).mp hmem, hd⟩
  · intro h
    obtain ⟨hdirty, hcache⟩ := h
    exact ⟨(k, ()), (m.dirtyBlocks.mem_entries).mpr hdirty, by simp [hcache]⟩

theorem toFlush_pairwise : m.toFlush.Pairwise fun a b => a.1 ≠ b.1 := by
  unfold toFlush
  rw [List.pairwise_filterMap]
  refine m.dirtyBlocks.sorted.imp ?_
  intro a b hab c hc d hd heq
  obtain ⟨_, -, rfl⟩ := map_eq_some_iff.mp hc
  obtain ⟨_, -, rfl⟩ := map_eq_some_iff.mp hd
  exact absurd heq (ne_of_lt hab)

theorem moves_foldl_writeBack : ∀ (blocks : List (CacheKey × Bytes)) (m : FileManager),
    blocks.Pairwise (fun a b => a.1 ≠ b.1) →
    (∀ b ∈ blocks, m.dirtyBlocks.get? b.1 = some () ∧ m.cache.get? b.1 = some b.2) →
    T.Moves m (blocks.foldl (fun m b => T.writeBack b.1 b.2 m) m) ∧
    ∀ j, (blocks.foldl (fun m b => T.writeBack b.1 b.2 m) m).dirtyBlocks.get? j =
      if j ∈ blocks.map (·.1) then none else m.dirtyBlocks.get? j
  | [], m, _, _ => ⟨.refl, fun j => by simp⟩
  | (k, data) :: blocks, m, hp, hd => by
    obtain ⟨hdirty, hcache⟩ := hd (k, data) (List.mem_cons_self ..)
    rw [List.pairwise_cons] at hp
    -- writing the first block back does not touch the others
    have hrest := moves_foldl_writeBack blocks (T.writeBack k data m) hp.2 (by
      intro b hb
      obtain ⟨hbd, hbc⟩ := hd b (List.mem_cons_of_mem _ hb)
      refine ⟨?_, by rw [T.cache_writeBack]; exact hbc⟩
      show (m.dirtyBlocks.erase k).get? b.1 = some ()
      rw [get?_erase, if_neg (Ne.symm (hp.1 b hb)), hbd])
    refine ⟨.head (.writeBack k data hdirty hcache) hrest.1, fun j => ?_⟩
    -- a key is clean afterwards if it was the first one or one of the others
    rw [List.foldl_cons, hrest.2 j]
    show (if j ∈ blocks.map (·.1) then none else (m.dirtyBlocks.erase k).get? j) = _
    rw [get?_erase, List.map_cons]
    by_cases hj : j ∈ blocks.map (·.1)
    · rw [if_pos hj, if_pos (List.mem_cons_of_mem _ hj)]
    · by_cases hjk : j = k
      · rw [if_neg hj, if_pos hjk, if_pos (hjk ▸ List.mem_cons_self ..)]
      · rw [if_neg hj, if_neg hjk, if_neg (by simp [hj, hjk])]

theorem foldl_tryWrite (D : OrdMap CacheKey Unit) : ∀ (blocks : List (CacheKey × Bytes))
    (m : FileManager),
    blocks.foldl (fun m b => T.tryWrite b.1 b.2 m) { m with dirtyBlocks := D } =
      { blocks.foldl (fun m b => T.writeBack b.1 b.2 m) m with dirtyBlocks := D }
  | [], _ => rfl
  | (k, data) :: blocks, m => by
    rw [List.foldl_cons, List.foldl_cons, T.tryWrite_dirtyBlocks]
    exact foldl_tryWrite D blocks (T.writeBack k data m)

section

variable (hs : T.Sane m)

include hs

theorem moves_flush :
    T.Moves m (m.toFlush.foldl (fun m b => T.tryWrite b.1 b.2 m)
      { m with dirtyBlocks := empty }) ∧
    (m.toFlush.foldl (fun m b => T.tryWrite b.1 b.2 m)
      { m with dirtyBlocks := empty }).dirtyBlocks = empty := by
  have hmoves := moves_foldl_writeBack (T := T) m.toFlush m toFlush_pairwise fun b hb =>
    mem_toFlush.mp hb
  have hempty : (m.toFlush.foldl (fun m b => T.writeBack b.1 b.2 m) m).dirtyBlocks = empty := by
    apply eq_empty
    intro j
    rw [hmoves.2 j]
    cases hj : m.dirtyBlocks.get? j with
    | none => exact ite_self _
    | some u =>
      -- a dirty block is cached, so the flush has taken it
      obtain ⟨data, hcache, -⟩ := hs.dirty j hj
      exact if_pos (List.mem_map.mpr ⟨(j, data), mem_toFlush.mpr ⟨hj, hcache⟩, rfl⟩)
  rw [foldl_tryWrite, ← hempty]
  exact ⟨hmoves.1, rfl⟩

theorem isBlock_of_mem_toFlush : ∀ b ∈ m.toFlush, T.IsBlock b.1 b.2 := by
  intro b hb
  obtain ⟨hdirty, hcache⟩ := mem_toFlush.mp hb
  exact hs.isBlock hdirty hcache

theorem syncFlushAllDirty_moves : ∃ m',
    syncFlushAllDirty T.toEnv m = some m' ∧ T.Moves m m' ∧ m'.dirtyBlocks = empty :=
  ⟨_, syncFlushBlocks_eq m.toFlush { m with dirtyBlocks := empty }
    (isBlock_of_mem_toFlush hs), moves_flush hs⟩

theorem flushAllDirty_moves (hc : m.ioCancelled = false) : ∃ m',
    flushAllDirty T.toEnv m = some m' ∧ T.Moves m m' ∧ m'.dirtyBlocks = empty :=
  ⟨_, flushBlocks_eq m.toFlush { m with dirtyBlocks := empty } hc
    (isBlock_of_mem_toFlush hs), moves_flush hs⟩

theorem flush_moves (hc : m.ioCancelled = false) {flush : CacheOp}
    (hflush : flush = .flushAllDirty ∨ flush = .syncFlushAllDirty) : ∃ m',
    flush.step T.toEnv m = some m' ∧ T.Moves m m' ∧ m'.dirtyBlocks = empty := by
  cases hflush with
  | inl h => rw [h]; exact flushAllDirty_moves hs hc
  | inr h => rw [h]; exact syncFlushAllDirty_moves hs

/-! ## Eviction -/

theorem evictBack_moves (k : CacheKey) : ∃ m', evictBack T.toEnv m k = some m' ∧ T.Moves m m' := by
  -- the node leaves the list first
  have hadmin : T.Move m { m with
      lruOrder := m.lruOrder.dropLast
      lruIndex := m.lruIndex.erase k } := .admin rfl rfl rfl rfl rfl
  generalize hm₁ : ({ m with
      lruOrder := m.lruOrder.dropLast
      lruIndex := m.lruIndex.erase k } : FileManager) = m₁ at hadmin
  have hs₁ := hadmin.sane hs
  unfold evictBack
  rw [hm₁]
  dsimp only
  cases hcache : m₁.cache.get? k with
  | none => exact ⟨_, rfl, .tail (.single hadmin) (.clean k hcache)⟩
  | some data =>
    cases hdirty : m₁.dirtyBlocks.get? k with
    | none =>
      -- the block is only forgotten
      have hcont : m₁.dirtyBlocks.contains k = false := by rw [contains, hdirty]; rfl
      simp only [hcont, Bool.false_eq_true, if_false, bind_eq_bind, bind_some]
      refine ⟨_, rfl, .tail (.tail (.single hadmin) (.forget k hdirty)) ?_⟩
      exact .admin rfl rfl rfl rfl rfl
    | some u =>
      -- the block is written back before it is forgotten
      have hcont : m₁.dirtyBlocks.contains k = true := by rw [contains, hdirty]; rfl
      simp only [hcont, if_true, syncWriteBlock_eq (hs₁.isBlock hdirty hcache),
        map_some, bind_eq_bind, bind_some]
      have hclean : (T.writeBack k data m₁).dirtyBlocks.get? k = none := by
        show (m₁.dirtyBlocks.erase k).get? k = none
        rw [get?_erase, if_pos rfl]
      refine ⟨_, rfl, .tail (.tail (.tail (.single hadmin) (.writeBack k data hdirty hcache))
        (.forget k hclean)) ?_⟩
      exact .admin rfl (congrArg (·.erase k) T.dirtyBlocks_tryWrite) rfl rfl rfl

end

theorem evictLoop_moves : ∀ (rounds : Nat) (m : FileManager), T.Sane m → ∃ m',
    evictLoop T.toEnv rounds m = some m' ∧ T.Moves m m'
  | 0, m, _ => ⟨m, rfl, .refl⟩
  | rounds + 1, m, hs => by
    unfold evictLoop
    by_cases hsize : m.cacheCurrentSize > diskCacheSize
    · rw [if_pos hsize]
      cases m.lruOrder.getLast? with
      | none => exact ⟨m, rfl, .refl⟩
      | some node =>
        -- one key is evicted, then the loop goes on
        obtain ⟨m₁, hrun₁, hmoves₁⟩ := evictBack_moves hs node.2
        obtain ⟨m₂, hrun₂, hmoves₂⟩ :=
          evictLoop_moves rounds m₁ (Torrent.Moves.sane hmoves₁ hs)
        exact ⟨m₂, by simp only [hrun₁, bind_some, hrun₂], hmoves₁.trans hmoves₂⟩
    · rw [if_neg hsize]
      exact ⟨m, rfl, .refl⟩

theorem evictIfNeeded_moves (hs : T.Sane m) : ∃ m',
    evictIfNeeded T.toEnv m = some m' ∧ T.Moves m m' :=
  evictLoop_moves _ m hs

/-! ## Filling the cache -/

theorem putBlock_moves (hs : T.Sane m) (k : CacheKey) (data : Bytes) : ∃ m₁ m',
    T.Moves m m₁ ∧ putBlock T.toEnv m k data = some m' ∧ Put k data m₁ m' := by
  obtain ⟨m₁, hrun, hmoves⟩ := evictIfNeeded_moves hs
  unfold putBlock
  rw [hrun]
  exact ⟨m₁, _, hmoves, rfl, ⟨rfl, rfl, rfl, rfl, rfl⟩⟩

theorem cacheRead_moves (hs : T.Sane m) (k : CacheKey) (data : Bytes) : ∃ m₁ m',
    m.evictIfNeeded T.toEnv = some m₁ ∧ T.Moves m m₁ ∧
      cacheRead T.toEnv m k data = some m' ∧ Inserted k data m₁ m' := by
  obtain ⟨m₁, hrun, hmoves⟩ := evictIfNeeded_moves hs
  unfold cacheRead
  rw [hrun]
  exact ⟨m₁, _, rfl, hmoves, rfl, ⟨rfl, rfl, rfl, rfl, rfl⟩⟩

/-- A `read_block` that misses the cache: room is made, which leads to `m₁`, and the block is cached
    there. -/
structure ReadMiss (E : Env) (k : CacheKey) (length : Nat) (m m₁ : FileManager) (block : Bytes) :
    Prop where
  missed : m.cached k length = none
  read : m.readFromDisk E k length = .ok block
  evicted : m.evictIfNeeded E = some m₁

theorem readBlock_moves (hs : T.Sane m) (k : CacheKey) (length : Nat) : ∃ r m',
    m.readBlock T.toEnv k length = some (r, m') ∧ (T.Moves m m' ∨
      ∃ m₁ block, ReadMiss T.toEnv k length m m₁ block ∧ T.Moves m m₁ ∧
        Inserted k block m₁ m') := by
  unfold readBlock
  cases hhit : m.cached k length with
  | some block => exact ⟨_, _, rfl, .inl (.single (.admin rfl rfl rfl rfl rfl))⟩
  | none =>
    cases hread : m.readFromDisk T.toEnv k length with
    | error e => exact ⟨_, _, rfl, .inl .refl⟩
    | ok block =>
      obtain ⟨m₁, m', hevict, hmoves, hrun, hins⟩ := cacheRead_moves hs k block
      exact ⟨.ok block, m', by simp only [hrun, map_some],
        .inr ⟨m₁, block, ⟨hhit, hread, hevict⟩, hmoves, hins⟩⟩

inductive Torrent.Effect (T : Torrent) (m : FileManager) : CacheOp → FileManager → Prop
  | moves {op : CacheOp} {m' : FileManager} (moves : T.Moves m m') : Effect T m op m'
  | inserted {p begin length : Nat} {m₁ m' : FileManager} {block : Bytes}
      (miss : ReadMiss T.toEnv ⟨p, begin⟩ length m m₁ block) (moves : T.Moves m m₁)
      (inserted : Inserted ⟨p, begin⟩ block m₁ m') : Effect T m (.readBlock p begin length) m'

theorem step_effect (hs : T.Sane m) {op : CacheOp} (hop : ∀ p data, op ≠ .writePiece p data)
    (hc : op = .flushAllDirty → m.ioCancelled = false) :
    ∃ m', op.step T.toEnv m = some m' ∧ T.Effect m op m' := by
  cases op with
  | writePiece p data => exact absurd rfl (hop p data)
  | readBlock p begin length =>
    obtain ⟨r, m', hrun, hcase⟩ := readBlock_moves hs ⟨p, begin⟩ length
    refine ⟨m', by simp only [CacheOp.step, hrun, map_some], ?_⟩
    cases hcase with
    | inl hmoves => exact .moves hmoves
    | inr hmiss =>
      obtain ⟨m₁, block, hread, hmoves, hins⟩ := hmiss
      exact .inserted hread hmoves hins
  | touchCache key => exact ⟨_, rfl, .moves (.single (.admin rfl rfl rfl rfl rfl))⟩
  | evictIfNeeded =>
    obtain ⟨m', hrun, hmoves⟩ := evictIfNeeded_moves hs
    exact ⟨m', hrun, .moves hmoves⟩
  | flushAllDirty =>
    obtain ⟨m', hrun, hmoves, -⟩ := flushAllDirty_moves hs (hc rfl)
    exact ⟨m', hrun, .moves hmoves⟩
  | syncFlushAllDirty =>
    obtain ⟨m', hrun, hmoves, -⟩ := syncFlushAllDirty_moves hs
    exact ⟨m', hrun, .moves hmoves⟩

theorem Put.sane (h : Put k data m m') (hs : T.Sane m) (hb : T.IsBlock k data) : T.Sane m' := by
  constructor
  · rw [h.disk]
    exact hs.stored
  · intro j hj
    rw [h.dirty, get?_insert] at hj
    rw [h.cache, get?_insert]
    by_cases hjk : j = k
    · rw [if_pos hjk, hjk]
      exact ⟨data, rfl, hb⟩
    · rw [if_neg hjk] at hj ⊢
      exact hs.dirty j hj

theorem Inserted.sane (h : Inserted k data m m') (hs : T.Sane m) : T.Sane m' := by
  constructor
  · rw [h.disk]
    exact hs.stored
  · intro j hj
    rw [h.dirty, get?_erase] at hj
    rw [h.cache, get?_insert]
    by_cases hjk : j = k
    · rw [if_pos hjk] at hj
      cases hj
    · rw [if_neg hjk] at hj ⊢
      exact hs.dirty j hj

/-! ## The loop of `write_piece` -/

theorem isBlock_slice {p off : Nat} {pieceData : Bytes} (hp : p < T.info.numPieces)
    (hlen : pieceData.length = T.info.pieceLen p) (hal : off % blockSize = 0)
    (hoff : off < pieceData.length) :
    T.IsBlock ⟨p, off⟩ (pieceData.slice off (min blockSize (pieceData.length - off))) := by
  refine ⟨hp, hal, by rw [← hlen]; exact hoff, ?_⟩
  -- the last block of a piece is shorter
  rw [List.length_slice, ← hlen]
  dsimp only
  omega

section WritePiece

variable {p : Nat} {pieceData : Bytes} (hp : p < T.info.numPieces)
  (hlen : pieceData.length = T.info.pieceLen p) (hwrap : pieceData.length + blockSize ≤ 2 ^ 32)
  (P : Nat → FileManager → Prop)
  (hmove : ∀ n m m', T.Sane m → T.Move m m' → P n m → P n m')
  (hput : ∀ off m m', T.Sane m → off % blockSize = 0 → off < pieceData.length → P off m →
    Put ⟨p, off⟩ (pieceData.slice off (min blockSize (pieceData.length - off))) m m' →
    P (min (off + blockSize) pieceData.length) m')

include hp hlen hwrap hmove hput

theorem writeBlocks_rule (rounds off : Nat) (m : FileManager) (hs : T.Sane m)
    (hal : off % blockSize = 0) (hle : pieceData.length ≤ off + rounds * blockSize)
    (hP : P (min off pieceData.length) m) :
    ∃ m', writeBlocks T.toEnv p pieceData rounds off m = some m' ∧ T.Sane m' ∧
      m'.ioCancelled = m.ioCancelled ∧ P pieceData.length m' := by
  have hbs : 0 < blockSize := by decide
  -- the induction is on the rounds that are left
  induction rounds generalizing off m with
  | zero =>
    have hge : pieceData.length ≤ off := by omega
    rw [Nat.min_eq_right hge] at hP
    exact ⟨m, if_neg (by omega), hs, rfl, hP⟩
  | succ rounds ih =>
    unfold writeBlocks
    by_cases hoff : off < pieceData.length
    · -- neither the size of the block nor the next offset wraps around
      have hsize : u32 (pieceData.length - off) = pieceData.length - off :=
        Nat.mod_eq_of_lt (by omega)
      have hnext : u32 (off + blockSize) = off + blockSize := Nat.mod_eq_of_lt (by omega)
      rw [Nat.min_eq_left (by omega)] at hP
      -- room is made first, then the block is put
      obtain ⟨m₁, m₂, hmoves, hrun, hPut⟩ := putBlock_moves hs ⟨p, off⟩
        (pieceData.slice off (min blockSize (pieceData.length - off)))
      have hs₁ := Torrent.Moves.sane hmoves hs
      have hP₁ : P off m₁ := Torrent.Moves.invariant (hmove off) hmoves hs hP
      have hs₂ := hPut.sane hs₁ (isBlock_slice hp hlen hal hoff)
      obtain ⟨m', hrun', hs', hc', hP'⟩ := ih (off + blockSize) m₂ hs₂
        (by rw [Nat.add_mod_right]; exact hal)
        (by rw [Nat.add_mul, Nat.one_mul] at hle; omega) (hput off m₁ m₂ hs₁ hal hoff hP₁ hPut)
      refine ⟨m', ?_, hs', by rw [hc', hPut.cancelled, Torrent.Moves.cancelled hmoves], hP'⟩
      simp only [if_pos hoff, hsize, hnext, hrun, bind_some, hrun']
    · rw [if_neg hoff]
      rw [Nat.min_eq_right (by omega)] at hP
      exact ⟨m, rfl, hs, rfl, hP⟩

theorem writePiece_rule (hs : T.Sane m) (hm : P 0 m) :
    ∃ m', writePiece T.toEnv m p pieceData = some m' ∧ T.Sane m' ∧
      m'.ioCancelled = m.ioCancelled ∧ P pieceData.length m' := by
  apply writeBlocks_rule hp hlen hwrap P hmove hput _ 0 m hs (Nat.zero_mod _)
  · -- one round for each block, and one for the rest of the division
    have hdiv := Nat.div_add_mod pieceData.length blockSize
    have hmod := Nat.mod_lt pieceData.length (show 0 < blockSize by decide)
    rw [Nat.add_mul, Nat.mul_comm (pieceData.length / blockSize)]
    omega
  · rwa [Nat.zero_min]

end WritePiece

end Moves

end P2P
