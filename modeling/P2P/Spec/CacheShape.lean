import P2P.ForStd.Lru
import P2P.Native.CacheSections
import P2P.Spec.DiskBytes

/-!
# The shape of the disk cache

The cache has five fields: the blocks, their keys by last use, an index of these, the dirty keys and
a count of bytes.
-/

namespace P2P

open OrdMap Option

/-! ## Counting bytes -/

def cachedBytes (cache : OrdMap CacheKey Bytes) : Nat := (cache.entries.map (·.2.length)).sum

section CachedBytes

variable (cache : OrdMap CacheKey Bytes) (k : CacheKey)

theorem cachedBytes_insert (block : Bytes) :
    cachedBytes (cache.insert k block) = block.length + cachedBytes (cache.erase k) := by
  have hperm := cache.entries_insert_perm k block
  exact (hperm.map fun e => e.2.length).sum_nat.trans List.sum_cons

theorem cachedBytes_erase_add :
    cachedBytes (cache.erase k) + ((cache.get? k).getD []).length = cachedBytes cache := by
  cases hget : cache.get? k with
  | some block =>
    have hperm := ((Assoc.perm_erase hget).map fun e => e.2.length).sum_nat
    rw [List.map_cons, List.sum_cons, Nat.add_comm] at hperm
    exact hperm.symm
  | none =>
    rw [erase_of_get?_eq_none hget]
    rfl

end CachedBytes

namespace FileManager

variable {E : Env} {m m' : FileManager} {k : CacheKey}

/-! ## The keys -/

/-- The list, the index and the cache have the same keys, and only cached blocks are dirty. -/
structure Shaped (m : FileManager) : Prop where
  linked : Lru.Linked m.lruOrder m.lruIndex m.nextNode
  cached : ∀ k, m.lruIndex.contains k = m.cache.contains k
  dirty : ∀ k, m.dirtyBlocks.contains k = true → m.cache.contains k = true

theorem Shaped.start (disk : Nat → Option Bytes) : Shaped (start disk) where
  linked := Lru.Linked.empty
  cached _ := rfl
  dirty _ h := h

theorem Shaped.mem_order (h : Shaped m) :
    k ∈ m.lruOrder.map Prod.snd ↔ m.cache.contains k = true := by
  rw [h.linked.mem_keys, h.cached]

theorem Shaped.cache_eq_empty (h : Shaped m) (hnil : m.lruOrder = []) : m.cache = empty := by
  refine eq_empty fun k => ?_
  have hmem : ¬ m.cache.contains k = true := by
    rw [← h.mem_order, hnil]
    exact List.not_mem_nil
  exact not_isSome_iff_eq_none.mp hmem

variable {node : Nat}

theorem Shaped.exists_last (h : Shaped m) (hlast : m.lruOrder.getLast? = some (node, k)) :
    ∃ data, m.cache.get? k = some data :=
  isSome_iff_exists.mp
    (h.mem_order.mp (List.mem_map_of_mem (List.mem_of_getLast? hlast)))

theorem touchCache_eq (m : FileManager) (k : CacheKey) : m.touchCache k = { m with
    lruOrder := (m.nextNode, k) :: Lru.unlink m.lruOrder m.lruIndex k
    lruIndex := m.lruIndex.insert k m.nextNode
    nextNode := m.nextNode + 1 } := rfl

variable {block : Bytes}

theorem contains_of_cached {length : Nat} (h : m.cached k length = some block) :
    m.cache.contains k = true := by
  unfold cached at h
  split at h
  · next data hget => exact isSome_iff_exists.mpr ⟨data, hget⟩
  · cases h

theorem Shaped.touchCache (h : Shaped m) (hk : m.cache.contains k = true) :
    Shaped (m.touchCache k) where
  linked := h.linked.touch k
  cached j := by
    rw [touchCache_eq, contains_insert, h.cached]
    by_cases hj : j = k
    · simp [hj, hk]
    · simp [hj]
  dirty := h.dirty

theorem Shaped.store (h : Shaped m) (block : Bytes)
    (hlink : m'.lruOrder = (m.touchCache k).lruOrder ∧
      m'.lruIndex = (m.touchCache k).lruIndex ∧ m'.nextNode = (m.touchCache k).nextNode)
    (hcache : m'.cache = m.cache.insert k block)
    (hdirty : ∀ j, j ≠ k → m'.dirtyBlocks.contains j = true → m.dirtyBlocks.contains j = true) :
    Shaped m' where
  linked := by
    rw [hlink.1, hlink.2.1, hlink.2.2]
    exact h.linked.touch k
  cached j := by
    rw [hlink.2.1, hcache, touchCache_eq, contains_insert, contains_insert, h.cached]
  dirty j hj := by
    rw [hcache, contains_insert]
    by_cases heq : j = k
    · simp [heq]
    · simp [h.dirty j (hdirty j heq hj)]

/-! ## Eviction -/

variable {data : Bytes}

theorem syncWriteBlock_eq (h : syncWriteBlock E k data m = some m') :
    ∃ disk log, m' = { m with disk := disk, log := log } := by
  unfold syncWriteBlock at h
  split at h
  · exact ⟨m.disk, m.log, (some.inj h).symm⟩
  · obtain ⟨ws, -, rfl⟩ := map_eq_some_iff.mp h
    obtain ⟨disk, log, hws⟩ := writeAll_frame (E := E) k ws m
    exact ⟨disk, log, hws m.dirtyBlocks⟩

theorem evictBack_eq (hget : m.cache.get? k = some data) (h : evictBack E m k = some m') :
    ∃ D disk log, (∀ j, D.contains j = true → j ≠ k ∧ m.dirtyBlocks.contains j = true) ∧
      m' = { m with
        lruOrder := m.lruOrder.dropLast
        lruIndex := m.lruIndex.erase k
        cache := m.cache.erase k
        dirtyBlocks := D
        cacheCurrentSize := sub64 m.cacheCurrentSize data.length
        disk := disk
        log := log } := by
  unfold evictBack at h
  simp only [hget] at h
  by_cases hdirty : m.dirtyBlocks.contains k = true
  · rw [if_pos hdirty] at h
    obtain ⟨m₂, hm₂, h⟩ := bind_eq_some_iff.mp h
    obtain ⟨m₁, hwrite, rfl⟩ := map_eq_some_iff.mp hm₂
    obtain ⟨disk, log, rfl⟩ := syncWriteBlock_eq hwrite
    refine ⟨m.dirtyBlocks.erase k, disk, log, fun j hj => ?_, (some.inj h).symm⟩
    simpa [contains_erase] using hj
  · rw [if_neg hdirty] at h
    refine ⟨m.dirtyBlocks, m.disk, m.log, fun j hj => ⟨?_, hj⟩, (some.inj h).symm⟩
    rintro rfl
    exact hdirty hj

/-- The count is right, and has not wrapped around. -/
def Counted (m : FileManager) : Prop :=
  m.cacheCurrentSize = cachedBytes m.cache ∧ cachedBytes m.cache < 2 ^ 64

structure Evicted (m m' : FileManager) : Prop where
  shaped : Shaped m'
  counted : Counted m → Counted m'
  bytes : ∀ k, (m.cache.get? k).getD [] = [] → (m'.cache.get? k).getD [] = []

theorem Evicted.refl (h : Shaped m) : Evicted m m := ⟨h, id, fun _ => id⟩

theorem Evicted.trans {m₁ : FileManager} (h₁ : Evicted m m₁) (h₂ : Evicted m₁ m') : Evicted m m' :=
  ⟨h₂.shaped, h₂.counted ∘ h₁.counted, fun k => h₂.bytes k ∘ h₁.bytes k⟩

theorem Counted.sub64_eq (h : Counted m) (k : CacheKey) :
    sub64 m.cacheCurrentSize ((m.cache.get? k).getD []).length = cachedBytes (m.cache.erase k) := by
  have hsplit := cachedBytes_erase_add m.cache k
  have hsize := h.1
  have hlt := h.2
  unfold sub64
  omega

theorem evictBack_evicted (h : Shaped m) (hlast : m.lruOrder.getLast? = some (node, k))
    (hrun : evictBack E m k = some m') : Evicted m m' ∧ m'.lruOrder = m.lruOrder.dropLast := by
  obtain ⟨data, hget⟩ := h.exists_last hlast
  obtain ⟨D, disk, log, hD, rfl⟩ := evictBack_eq hget hrun
  refine ⟨⟨⟨h.linked.pop hlast, fun j => ?_, fun j hj => ?_⟩, fun hc => ?_, fun j hj => ?_⟩, rfl⟩
  · rw [contains_erase, contains_erase, h.cached]
  · rw [contains_erase, h.dirty j (hD j hj).2]
    simp [(hD j hj).1]
  · have hsize := hc.sub64_eq k
    rw [hget] at hsize
    refine ⟨hsize, ?_⟩
    have hsplit := cachedBytes_erase_add m.cache k
    have hlt := hc.2
    dsimp only
    omega
  · show (((m.cache.erase k).get? j).getD []) = []
    rw [get?_erase]
    split
    · rfl
    · exact hj

variable {rounds : Nat}

theorem evictLoop_evicted (h : Shaped m) (hrun : evictLoop E rounds m = some m') :
    Evicted m m' := by
  induction rounds generalizing m with
  | zero =>
    cases hrun
    exact .refl h
  | succ rounds ih =>
    unfold evictLoop at hrun
    split at hrun
    · split at hrun
      · cases hrun
        exact .refl h
      · next hlast =>
        obtain ⟨m₁, hm₁, hrest⟩ := bind_eq_some_iff.mp hrun
        have hstep := (evictBack_evicted h hlast hm₁).1
        exact hstep.trans (ih hstep.shaped hrest)
    · cases hrun
      exact .refl h

theorem Counted.le_of_order_nil (hc : Counted m) (h : Shaped m) (hnil : m.lruOrder = []) :
    m.cacheCurrentSize ≤ diskCacheSize := by
  rw [hc.1, h.cache_eq_empty hnil]
  exact Nat.zero_le _

section

variable (h : Shaped m)

include h

theorem evictLoop_le (hc : Counted m) (hrounds : m.lruOrder.length ≤ rounds)
    (hrun : evictLoop E rounds m = some m') : m'.cacheCurrentSize ≤ diskCacheSize := by
  induction rounds generalizing m with
  | zero =>
    cases hrun
    exact hc.le_of_order_nil h (List.eq_nil_of_length_eq_zero (Nat.le_zero.mp hrounds))
  | succ rounds ih =>
    unfold evictLoop at hrun
    split at hrun
    · split at hrun
      · next hlast =>
        cases hrun
        exact hc.le_of_order_nil h (List.getLast?_eq_none_iff.mp hlast)
      · next hlast =>
        obtain ⟨m₁, hm₁, hrest⟩ := bind_eq_some_iff.mp hrun
        obtain ⟨hstep, horder⟩ := evictBack_evicted h hlast hm₁
        refine ih hstep.shaped (hstep.counted hc) ?_ hrest
        rw [horder, List.length_dropLast]
        omega
    · next hle =>
      cases hrun
      exact Nat.le_of_not_lt hle

theorem evictIfNeeded_le (hc : Counted m) (hrun : m.evictIfNeeded E = some m') :
    cachedBytes m'.cache ≤ diskCacheSize := by
  have hle := evictLoop_le h hc (Nat.le_refl _) hrun
  rwa [((evictLoop_evicted h hrun).counted hc).1] at hle

/-! ## Reads and writes -/

theorem cacheRead_shaped (hrun : m.cacheRead E k block = some m') : Shaped m' := by
  obtain ⟨m₁, hm₁, rfl⟩ := map_eq_some_iff.mp hrun
  refine (evictLoop_evicted h hm₁).shaped.store block ⟨rfl, rfl, rfl⟩ rfl fun j hj hdirty => ?_
  have hdirty' : (m₁.dirtyBlocks.erase k).contains j = true := hdirty
  simpa [contains_erase, hj] using hdirty'

theorem putBlock_shaped (hrun : m.putBlock E k block = some m') : Shaped m' := by
  obtain ⟨m₁, hm₁, rfl⟩ := map_eq_some_iff.mp hrun
  refine (evictLoop_evicted h hm₁).shaped.store block ⟨rfl, rfl, rfl⟩ rfl fun j hj hdirty => ?_
  have hdirty' : (m₁.dirtyBlocks.insert k ()).contains j = true := hdirty
  simpa [contains_insert, hj] using hdirty'

theorem cacheRead_counted (hc : Counted m) (hlen : block.length < 2 ^ 32)
    (hnone : (m.cache.get? k).getD [] = []) (hrun : m.cacheRead E k block = some m') :
    Counted m' := by
  obtain ⟨m₁, hm₁, rfl⟩ := map_eq_some_iff.mp hrun
  have hev := evictLoop_evicted h hm₁
  have hroom := evictIfNeeded_le h hc hm₁
  have hsize := (hev.counted hc).1
  have hsplit := cachedBytes_erase_add m₁.cache k
  rw [hev.bytes k hnone, List.length_nil] at hsplit
  have hbytes := cachedBytes_insert m₁.cache k block
  show u64 (m₁.cacheCurrentSize + block.length) = cachedBytes (m₁.cache.insert k block) ∧
    cachedBytes (m₁.cache.insert k block) < 2 ^ 64
  unfold u64 diskCacheSize at *
  omega

theorem putBlock_counted (hc : Counted m) (hlen : block.length ≤ blockSize)
    (hrun : m.putBlock E k block = some m') : Counted m' := by
  obtain ⟨m₁, hm₁, rfl⟩ := map_eq_some_iff.mp hrun
  have hroom := evictIfNeeded_le h hc hm₁
  have hc₁ := (evictLoop_evicted h hm₁).counted hc
  have hsub := hc₁.sub64_eq k
  have hsplit := cachedBytes_erase_add m₁.cache k
  have hbytes := cachedBytes_insert m₁.cache k block
  have hsize := hc₁.1
  unfold Counted
  dsimp only [touchCache]
  unfold u64 diskCacheSize blockSize at *
  cases hget : m₁.cache.get? k with
  | some existing =>
    rw [hget, getD_some] at hsub
    dsimp only
    omega
  | none =>
    rw [hget, getD_none, List.length_nil] at hsplit
    dsimp only
    omega

end

end FileManager

namespace CacheStep

open FileManager

variable {E : Env} {r r' : CacheRun}

/-! ## Runs -/

inductive Part (E : Env) (r : CacheRun) : CacheStep → CacheRun → Prop
  | hit {piece begin length : Nat} (hcached : r.manager.cache.contains ⟨piece, begin⟩ = true) :
    Part E r (.readStart piece begin length)
      { r with manager := r.manager.touchCache ⟨piece, begin⟩ }
  | miss {piece begin length : Nat} (hlen : length < 2 ^ 32) :
    Part E r (.readStart piece begin length)
      { r with reads := r.reads ++ [(⟨piece, begin⟩, length)] }
  | read {i : Nat} {key : CacheKey} {block : Bytes} {m : FileManager}
    (hread : r.reads[i]? = some (key, block.length))
    (hm : r.manager.cacheRead E key block = some m) :
    Part E r (.readDone i (some block)) { manager := m, reads := r.reads.eraseIdx i }
  | fail {i : Nat} : Part E r (.readDone i none) { r with reads := r.reads.eraseIdx i }
  | put {piece offset : Nat} {blockData : Bytes} {m : FileManager}
    (hlen : blockData.length ≤ blockSize)
    (hm : r.manager.putBlock E ⟨piece, offset⟩ blockData = some m) :
    Part E r (.putBlock piece offset blockData) { r with manager := m }
  | evict {m : FileManager} (hm : r.manager.evictIfNeeded E = some m) :
    Part E r .evictIfNeeded { r with manager := m }
  | flush : Part E r .takeDirty { r with manager := r.manager.takeDirty.2 }
  | write {key : CacheKey} {w : FileWrite} {disk : Nat → Option Bytes} {log : List Event} :
    Part E r (.writeFile key w) { r with manager := { r.manager with disk := disk, log := log } }

variable {st : CacheStep}

theorem part_of_step (hstep : step E r st = some r') : Part E r st r' := by
  cases st with simp only [step] at hstep
  | readStart piece begin length =>
    split at hstep
    · next hlen =>
      split at hstep
      · next block hcached =>
        cases hstep
        exact .hit (contains_of_cached hcached)
      · -- the read goes on without the lock
        cases hstep
        exact .miss hlen
    · cases hstep
  | readDone i block =>
    split at hstep
    · next key length block hread =>
      split at hstep
      · next hlen =>
        obtain ⟨m, hm, rfl⟩ := map_eq_some_iff.mp hstep
        exact .read (hlen ▸ hread) hm
      · cases hstep
    · cases hstep
      exact .fail
    · cases hstep
  | putBlock piece offset blockData =>
    split at hstep
    · next hlen =>
      obtain ⟨m, hm, rfl⟩ := map_eq_some_iff.mp hstep
      exact .put hlen hm
    · cases hstep
  | evictIfNeeded =>
    obtain ⟨m, hm, rfl⟩ := map_eq_some_iff.mp hstep
    exact .evict hm
  | takeDirty =>
    cases hstep
    exact .flush
  | writeFile key w =>
    obtain ⟨made, disk, log, hframe⟩ := writeFile_frame (E := E) key w r.manager
    -- a write to a file does not look at the dirty blocks
    have hm : FileManager.writeFile E key w r.manager =
      (made, { r.manager with disk := disk, log := log }) := hframe r.manager.dirtyBlocks
    rw [← some.inj hstep, hm]
    exact .write

theorem step_shaped (hstep : step E r st = some r') (h : Shaped r.manager) : Shaped r'.manager := by
  cases part_of_step hstep with
  | hit hcached => exact h.touchCache hcached
  | miss | fail => exact h
  | read _ hm => exact cacheRead_shaped h hm
  | put _ hm => exact putBlock_shaped h hm
  | evict hm => exact (evictLoop_evicted h hm).shaped
  | flush => exact ⟨h.linked, h.cached, nofun⟩
  | write => exact ⟨h.linked, h.cached, h.dirty⟩

variable {disk : Nat → Option Bytes} {steps : List CacheStep}

theorem shaped_run (hrun : run E steps (start disk) = some r) : Shaped r.manager :=
  runSteps_preserves (I := fun r => Shaped r.manager) (fun _ _ _ hstep => step_shaped hstep) hrun
    (Shaped.start disk)

/-- A read completes only where no bytes are cached under its key. -/
def Missing (r : CacheRun) : CacheStep → Prop
  | .readDone i (some _) => ∀ read ∈ r.reads[i]?, (r.manager.cache.get? read.1).getD [] = []
  | _ => True

instance Missing.decidable (r : CacheRun) : ∀ st, Decidable (Missing r st) := by
  intro st
  unfold Missing
  split <;> infer_instance

/-- The cache is in shape, its bytes are counted, and the lengths of reads are `uint32_t` values. -/
structure Sound (r : CacheRun) : Prop where
  shaped : Shaped r.manager
  counted : Counted r.manager
  reads : ∀ read ∈ r.reads, read.2 < 2 ^ 32

theorem Sound.start (disk : Nat → Option Bytes) : Sound (start disk) where
  shaped := Shaped.start disk
  counted := ⟨rfl, Nat.two_pow_pos 64⟩
  reads := by simp [CacheStep.start]

theorem step_reads (hstep : step E r st = some r') (h : ∀ read ∈ r.reads, read.2 < 2 ^ 32) :
    ∀ read ∈ r'.reads, read.2 < 2 ^ 32 := by
  cases part_of_step hstep with
  | hit | put | evict | flush | write => exact h
  | miss hlen =>
    intro read hread
    rcases List.mem_append.mp hread with hold | hnew
    · exact h read hold
    · rw [List.mem_singleton.mp hnew]
      exact hlen
  | read | fail => exact fun read hread => h read (List.mem_of_mem_eraseIdx hread)

theorem step_counted (hmiss : Missing r st) (hstep : step E r st = some r') (h : Sound r) :
    Counted r'.manager := by
  cases part_of_step hstep with
  | hit | miss | fail | flush | write => exact h.counted
  | read hread hm =>
    have hlen := h.reads _ (List.mem_of_getElem? hread)
    exact cacheRead_counted h.shaped h.counted hlen (hmiss _ hread) hm
  | put hlen hm => exact putBlock_counted h.shaped h.counted hlen hm
  | evict hm => exact (evictLoop_evicted h.shaped hm).counted h.counted

theorem sound_run (hmiss : StepsMeet (step E) Missing steps (start disk))
    (hrun : run E steps (start disk) = some r) : Sound r :=
  runSteps_invariant (I := Sound)
    (fun _ _ _ hok hstep h => ⟨step_shaped hstep h.shaped, step_counted hok hstep h,
      step_reads hstep h.reads⟩) hmiss hrun (Sound.start disk)

end CacheStep

/-- While no read completes over cached bytes, list, index and cache have the same keys, only cached
    blocks are dirty, and the count is the number of cached bytes. -/
theorem cache_consistent (E : Env) (disk : Nat → Option Bytes) (steps : List CacheStep)
    (hmiss : StepsMeet (CacheStep.step E) CacheStep.Missing steps (CacheStep.start disk))
    (r : CacheRun) (hrun : CacheStep.run E steps (CacheStep.start disk) = some r) :
    (r.manager.lruOrder.map Prod.snd).Nodup ∧
    (∀ k, k ∈ r.manager.lruOrder.map Prod.snd ↔ r.manager.cache.contains k = true) ∧
    (∀ k, r.manager.lruIndex.contains k = r.manager.cache.contains k) ∧
    (r.manager.lruOrder.map Prod.fst).Nodup ∧
    (∀ k node, r.manager.lruIndex.get? k = some node ↔ (node, k) ∈ r.manager.lruOrder) ∧
    (∀ k, r.manager.dirtyBlocks.contains k = true → r.manager.cache.contains k = true) ∧
    r.manager.cacheCurrentSize = cachedBytes r.manager.cache := by
  have hsound := CacheStep.sound_run hmiss hrun
  have hlinked := hsound.shaped.linked
  exact ⟨hlinked.nodup_keys, fun _ => hsound.shaped.mem_order, hsound.shaped.cached, hlinked.nodup,
    hlinked.get?_iff, hsound.shaped.dirty, hsound.counted.1⟩

theorem cache_consistent_two_bytes :
    ∃ r, CacheStep.run twoByteEnv
        [.readStart 0 1 1, .putBlock 0 0 [7, 8], .takeDirty, .readStart 0 0 2, .readStart 0 0 4,
          .readDone 0 (some [8]), .putBlock 0 0 [7], .evictIfNeeded, .readDone 0 none]
        (CacheStep.start fun _ => some [7, 8]) = some r ∧
      r.manager.lruOrder.map Prod.snd = [⟨0, 0⟩, ⟨0, 1⟩] ∧
      r.manager.cacheCurrentSize = cachedBytes r.manager.cache := by
  obtain ⟨r, hrun, horder⟩ : ∃ r, CacheStep.run twoByteEnv
        [.readStart 0 1 1, .putBlock 0 0 [7, 8], .takeDirty, .readStart 0 0 2, .readStart 0 0 4,
          .readDone 0 (some [8]), .putBlock 0 0 [7], .evictIfNeeded, .readDone 0 none]
        (CacheStep.start fun _ => some [7, 8]) = some r ∧
      r.manager.lruOrder.map Prod.snd = [⟨0, 0⟩, ⟨0, 1⟩] :=
    ⟨(CacheStep.run _ _ _).get (by decide +kernel), (some_get _).symm, by decide +kernel⟩
  exact ⟨r, hrun, horder, (cache_consistent _ _ _ (by decide +kernel) r hrun).2.2.2.2.2.2⟩

/-- Two reads miss the same block and get it from the file. -/
theorem cache_size_counts_twice :
    FileManager.readFromDisk twoByteEnv
      (FileManager.start fun _ => some [7, 8]) ⟨0, 0⟩ 2 = .ok [7, 8] ∧
    (CacheStep.run twoByteEnv
        [.readStart 0 0 2, .readStart 0 0 2, .readDone 0 (some [7, 8]), .readDone 0 (some [7, 8])]
        (CacheStep.start fun _ => some [7, 8])).map
          (fun r => (r.manager.cache.get? ⟨0, 0⟩, cachedBytes r.manager.cache,
            r.manager.cacheCurrentSize)) =
      some (some [7, 8], 2, 4) := by
  refine ⟨?_, ?_⟩
  · decide +kernel
  · decide +kernel

end P2P
