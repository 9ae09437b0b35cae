import P2P.Spec.DirtyData

/-!
# Shutting down while flushes are running

A flush coroutine takes the dirty blocks out of the dirty set and then writes them file by file.
-/

namespace P2P

open FlushStep FileSystem List Option FileManager

/-! ## Pending writes -/

def FlushTask.pending (t : FlushTask) : List (CacheKey × FileWrite) :=
  (t.blocks.flatMap fun (key, ws) => ws.map fun w => (key, w)).drop (if t.written then 1 else 0)

def FileSystem.pending (s : FileSystem) : List (CacheKey × FileWrite) :=
  s.tasks.flatMap FlushTask.pending

namespace Torrent

variable (T : Torrent)

/-- A write is pending, and not cancelled, that puts the content `A` at the position
    `g`. -/
def Pending (A : Nat → UInt8) (s : FileSystem) (g : Nat) : Prop :=
  s.manager.ioCancelled = false ∧
    ∃ kw ∈ s.pending, writtenByte T.toEnv kw.2 T.info.files g = some (A g)

structure Durable (A : Nat → UInt8) (s : FileSystem) : Prop where
  sane : T.Sane s.manager
  backed : T.Backed (T.Pending A s) A s.manager
  fits : ∀ kw ∈ s.pending, kw.2.Fits T.toEnv T.info.files

/-- What keeps the content `A`: pieces are written as a whole and reads keep the dirty blocks; the
    pool writes an old byte only where a dirty block or another pending write has the new one; the
    shutdown comes when the files and the dirty blocks have all that the pending writes have; and
    after it no flush takes dirty blocks. -/
def Orderly (A : Nat → UInt8) (s : FileSystem) : FlushStep → Prop
  | .cache .flushAllDirty =>
    s.manager.ioCancelled = false ∨ s.manager.dirtyBlocks = OrdMap.empty
  | .cache op => T.WholePiece op ∧ keepsDirty T.toEnv s.manager op
  | .flushStart => s.manager.ioCancelled = false ∨ s.manager.dirtyBlocks = OrdMap.empty
  | .poolWrite i => ∀ key w ws blocks, s.tasks[i]? = some ⟨(key, w :: ws) :: blocks, false⟩ →
    s.manager.ioCancelled = false → ∀ g b, writtenByte T.toEnv w T.info.files g = some b →
    b = A g ∨ T.Covered s.manager g ∨ T.Pending A s g
  | .poolCheck _ => True
  | .signalShutdown => ∀ g b, storedByte T.toEnv s.manager.disk T.info.files g = some b →
    T.Pending A s g → b = A g ∨ T.Covered s.manager g

def writeStep (A : Nat → UInt8) : FlushStep → Nat → UInt8
  | .cache op => T.write A op
  | _ => A

/-- Every step is orderly in the state it meets and for the content written so far. -/
def OrderlyRun (steps : List FlushStep) (A : Nat → UInt8) (s : FileSystem) : Prop :=
  StepsMeet (recording (step T.toEnv) T.writeStep)
    (fun r st => T.Orderly r.1 r.2 st) steps (A, s)

end Torrent

section Durable

variable {T : Torrent} {A : Nat → UInt8} {s : FileSystem}

/-! ## Replacing a task -/

section Set

variable {i : Nat} {t t' : FlushTask} {m : FileManager} {kw : CacheKey × FileWrite}

theorem mem_pending_of_set (hkw : kw ∈ (mk m (s.tasks.set i t')).pending) :
    kw ∈ t'.pending ∨ kw ∈ s.pending := by
  obtain ⟨u, hu, hkw⟩ := mem_flatMap.mp hkw
  cases mem_or_eq_of_mem_set hu with
  | inl hmem => exact .inr (mem_flatMap.mpr ⟨u, hmem, hkw⟩)
  | inr heq => rw [heq] at hkw; exact .inl hkw

theorem mem_pending_set (ht : s.tasks[i]? = some t) (m : FileManager) (hkw : kw ∈ t'.pending) :
    kw ∈ (mk m (s.tasks.set i t')).pending := by
  have hlt := (List.getElem?_eq_some_iff.mp ht).1
  exact List.mem_flatMap.mpr ⟨t', List.mem_set hlt t', hkw⟩

theorem mem_pending_or_set (ht : s.tasks[i]? = some t) (t' : FlushTask) (m : FileManager)
    (hkw : kw ∈ s.pending) : kw ∈ t.pending ∨ kw ∈ (mk m (s.tasks.set i t')).pending := by
  obtain ⟨u, hu, hkw⟩ := mem_flatMap.mp hkw
  obtain ⟨j, hj⟩ := mem_iff_getElem?.mp hu
  by_cases hij : i = j
  · subst hij
    rw [some.inj (ht.symm.trans hj)]
    exact .inl hkw
  · right
    refine mem_flatMap.mpr ⟨u, mem_iff_getElem?.mpr ⟨j, ?_⟩, hkw⟩
    rw [getElem?_set_ne hij, hj]

theorem Torrent.Durable.set (h : T.Durable A s) (ht : s.tasks[i]? = some t)
    (hsub : ∀ kw ∈ t'.pending, kw ∈ t.pending)
    (hkeep : s.manager.ioCancelled = false → ∀ kw ∈ t.pending, kw ∈ t'.pending) :
    T.Durable A { s with tasks := s.tasks.set i t' } := by
  have htmem : t ∈ s.tasks := mem_iff_getElem?.mpr ⟨i, ht⟩
  refine ⟨h.sane, h.backed.mono ?_, fun kw hkw => h.fits kw ?_⟩
  · rintro g ⟨hc, kw, hkw, hg⟩
    refine ⟨hc, kw, ?_, hg⟩
    cases mem_pending_or_set ht t' s.manager hkw with
    | inl hin => exact mem_pending_set ht s.manager (hkeep hc kw hin)
    | inr hin => exact hin
  · cases mem_pending_of_set hkw with
    | inl hin => exact mem_flatMap.mpr ⟨t, htmem, hsub kw hin⟩
    | inr hin => exact hin

end Set

/-! ## The steps of the pool -/

theorem durable_poolCheck (h : T.Durable A s) {i : Nat} {s' : FileSystem}
    (hstep : step T.toEnv s (.poolCheck i) = some s') : T.Durable A s' := by
  unfold step at hstep
  dsimp only at hstep
  split at hstep
  · next key w ws blocks ht =>
    split at hstep
    · next hc =>
      -- the rest of the block is given up, but it is cancelled anyway
      cases hstep
      exact h.set ht (fun kw hkw => mem_append_right _ hkw)
        fun hrun => absurd (hrun.symm.trans hc) Bool.false_ne_true
    · cases hstep
      exact h.set ht (fun kw hkw => hkw) fun _ kw hkw => hkw
  · cases hstep

variable (hsucc : ∀ h, T.outcome h = .success)

include hsucc

theorem durable_poolWrite (h : T.Durable A s) {i : Nat} {s' : FileSystem}
    (horder : T.Orderly A s (.poolWrite i))
    (hstep : step T.toEnv s (.poolWrite i) = some s') : T.Durable A s' := by
  unfold step at hstep
  dsimp only at hstep
  split at hstep
  · next key w ws blocks ht =>
    cases hc : s.manager.ioCancelled with
    | true =>
      -- the write is cancelled, and the rest of the block is given up
      rw [hc, if_pos rfl] at hstep
      cases hstep
      exact h.set ht (fun kw hkw => mem_cons_of_mem _ (mem_append_right _ hkw))
        fun hrun => absurd (hrun.symm.trans hc) Bool.false_ne_true
    | false =>
      have htmem := mem_iff_getElem?.mpr ⟨i, ht⟩
      have hfirst : (key, w) ∈ s.pending :=
        mem_flatMap.mpr ⟨_, htmem, mem_cons_self ..⟩
      obtain ⟨content, hdisk, hlen, hoff⟩ := T.exists_of_fits h.sane.stored (h.fits _ hfirst)
      rw [hc, if_neg Bool.false_ne_true, writeFile_ok (hsucc _) hdisk hoff] at hstep
      cases hstep
      -- every other pending write is still pending
      have hstill : ∀ kw ∈ s.pending, kw = (key, w) ∨ kw ∈ pending ⟨{ s.manager with
          disk := applyWrite T.toEnv s.manager.disk w
          log := .write key w true :: s.manager.log },
          s.tasks.set i ⟨(key, w :: ws) :: blocks, true⟩⟩ := by
        intro kw hkw
        cases mem_pending_or_set ht _ _ hkw with
        | inr hin => exact .inr hin
        | inl hin =>
          cases mem_cons.mp hin with
          | inl heq => exact .inl heq
          | inr hin => exact .inr (mem_pending_set ht _ hin)
      refine ⟨⟨h.sane.stored.applyWrites [w], h.sane.dirty⟩, ⟨h.backed.dirty, ?_⟩, ?_⟩
      · intro g b hg hQ
        dsimp only at hg
        rw [storedByte_applyWrite hdisk hlen T.info.files g h.sane.stored] at hg
        obtain ⟨b₀, hb₀, hb⟩ := map_eq_some_iff.mp hg
        cases hwb : writtenByte T.toEnv w T.info.files g with
        | some x =>
          rw [hwb, getD_some] at hb
          subst hb
          cases horder key w ws blocks ht hc g x hwb with
          | inl hA => exact .inl hA
          | inr hrest =>
            cases hrest with
            | inl hcov => exact .inr hcov
            | inr hpend =>
              -- another write has the content, or this one has brought it
              obtain ⟨-, kw, hkw, hcov⟩ := hpend
              cases hstill kw hkw with
              | inr hin => exact absurd ⟨hc, kw, hin, hcov⟩ hQ
              | inl heq =>
                rw [heq, hwb] at hcov
                exact .inl (some.inj hcov)
        | none =>
          -- the write does not touch this position
          rw [hwb, getD_none] at hb
          subst hb
          refine h.backed.disk g b₀ hb₀ ?_
          rintro ⟨-, kw, hkw, hcov⟩
          cases hstill kw hkw with
          | inr hin => exact hQ ⟨hc, kw, hin, hcov⟩
          | inl heq => rw [heq, hwb] at hcov; exact nomatch hcov
      · intro kw hkw
        apply h.fits kw
        cases mem_pending_of_set hkw with
        | inl hin => exact mem_flatMap.mpr ⟨_, htmem, mem_cons_of_mem _ hin⟩
        | inr hin => exact hin
  · next key blocks ht =>
    cases hstep
    exact h.set ht (fun kw hkw => hkw) fun _ kw hkw => hkw
  · cases hstep

omit hsucc in
private theorem mapM_eq_some {α β : Type} {f : α → Option β} {g : α → β} :
    ∀ l : List α, (∀ x ∈ l, f x = some (g x)) → l.mapM f = some (l.map g)
  | [], _ => rfl
  | x :: l, h => by
    rw [mapM_cons, h x (mem_cons_self ..), mapM_eq_some l fun y hy => h y (mem_cons_of_mem _ hy)]
    rfl

/-! ## The start of a flush -/

omit hsucc in
theorem flushStart_eq (hs : T.Sane s.manager) :
    step T.toEnv s .flushStart =
      some ⟨{ s.manager with dirtyBlocks := OrdMap.empty },
        s.tasks ++ [⟨s.manager.toFlush.map fun b => (b.1, T.writes b.1 b.2), false⟩]⟩ := by
  -- every dirty block is a block of a piece, so its writes are known
  have hmap : s.manager.toFlush.mapM (fun b =>
      (writesOf T.toEnv b.1 b.2).map fun ws => (b.1, ws)) =
      some (s.manager.toFlush.map fun b => (b.1, T.writes b.1 b.2)) := by
    apply mapM_eq_some
    intro b hb
    have hblock := isBlock_of_mem_toFlush hs b hb
    rw [show writesOf T.toEnv b.1 b.2 = some (T.writes b.1 b.2) from
      T.writesOf_eq hblock.piece_lt hblock.within, map_some]
  show (s.manager.toFlush.mapM (fun b =>
      (writesOf T.toEnv b.1 b.2).map fun ws => (b.1, ws))).bind (fun blocks =>
      some (⟨{ s.manager with dirtyBlocks := OrdMap.empty },
        s.tasks ++ [⟨blocks, false⟩]⟩ : FileSystem)) = _
  rw [hmap, bind_some]

omit hsucc in
theorem mem_pending_flushStart {m : FileManager} {toFlush : List (CacheKey × Bytes)}
    {kw : CacheKey × FileWrite} :
    kw ∈ pending ⟨m, s.tasks ++ [⟨toFlush.map fun b => (b.1, T.writes b.1 b.2), false⟩]⟩ ↔
      kw ∈ s.pending ∨ ∃ b ∈ toFlush, kw.1 = b.1 ∧ kw.2 ∈ T.writes b.1 b.2 := by
  unfold pending
  rw [flatMap_append, mem_append]
  apply or_congr_right
  simp only [List.flatMap_cons, List.flatMap_nil, List.append_nil, FlushTask.pending,
    Bool.false_eq_true, if_false, List.drop_zero, List.mem_flatMap, List.mem_map]
  constructor
  · rintro ⟨_, ⟨b, hb, rfl⟩, w, hw, rfl⟩
    exact ⟨b, hb, rfl, hw⟩
  · rintro ⟨b, hb, hk, hw⟩
    exact ⟨_, ⟨b, hb, rfl⟩, kw.2, hw, by rw [← hk]⟩

omit hsucc in
theorem durable_flushStart (h : T.Durable A s) {s' : FileSystem}
    (horder : T.Orderly A s .flushStart)
    (hstep : step T.toEnv s .flushStart = some s') : T.Durable A s' := by
  rw [flushStart_eq h.sane] at hstep
  cases hstep
  refine ⟨⟨h.sane.stored, nofun⟩, ⟨nofun, ?_⟩, ?_⟩
  · intro g b hg hQ
    left
    have hnot : ¬ T.Pending A s g := by
      rintro ⟨hc, kw, hkw, hcov⟩
      exact hQ ⟨hc, kw, mem_pending_flushStart.mpr (.inl hkw), hcov⟩
    cases h.backed.disk g b hg hnot with
    | inl hA => exact hA
    | inr hcov =>
      -- a dirty block that covered the position has a write that is pending now
      obtain ⟨k, data, hdirty, hcache, hlo, hhi⟩ := hcov
      have hc : s.manager.ioCancelled = false := by
        cases horder with
        | inl hrun => exact hrun
        | inr hempty => rw [hempty] at hdirty; exact nomatch hdirty
      obtain ⟨w, hw, b', hb'⟩ := exists_writtenByte (T.pos k) data T.info.files 0 g hg
        (by omega) (by omega)
      have hbyte := (T.writtenByte_writes hw hb').2.2
      rw [h.backed.dirty k data hdirty hcache, getElem?_window, if_pos (by omega),
        show T.pos k + (g - T.pos k) = g by omega] at hbyte
      refine absurd ⟨hc, (k, w), mem_pending_flushStart.mpr (.inr ⟨(k, data), ?_, rfl, hw⟩), ?_⟩ hQ
      · exact mem_toFlush.mpr ⟨hdirty, hcache⟩
      · rw [hb', hbyte]
  · intro kw hkw
    cases mem_pending_flushStart.mp hkw with
    | inl hin => exact h.fits kw hin
    | inr hin =>
      obtain ⟨b, -, -, hw⟩ := hin
      exact mem_fileWrites T.info.files 0 hw

/-! ## The operations on the cache -/

theorem Torrent.Durable.moves (h : T.Durable A s) {m : FileManager} (hm : T.Moves s.manager m) :
    T.Durable A { s with manager := m } := by
  refine ⟨Torrent.Moves.sane hm h.sane, ?_, h.fits⟩
  refine (h.backed.moves hsucc h.sane hm).mono fun g hg => ⟨?_, hg.2⟩
  exact (Torrent.Moves.cancelled hm).trans hg.1

theorem durable_writePiece (h : T.Durable A s) {p : Nat} {data : Bytes}
    (hwhole : T.WholePiece (.writePiece p data)) :
    ∃ m', s.manager.writePiece T.toEnv p data = some m' ∧
      T.Durable (patch A (p * T.info.ps) data) { s with manager := m' } := by
  obtain ⟨hp, hlen, hwrap⟩ := hwhole
  -- outside the blocks that are put the content and the pending writes are as before
  obtain ⟨m', hrun, hs', hc', hb'⟩ := writePiece_content hp hlen hwrap
    (fun A m => T.Backed (T.Pending A s) A m)
    (fun A m m' hs hmove hb => hb.moves hsucc hs (.single hmove))
    (fun A k d m m' hs hblock hb hput => hb.put hs hblock hput fun g hout hg =>
      ⟨hg.1, by rw [patch_of_not_mem (by omega)]; exact hg.2⟩)
    h.sane h.backed
  exact ⟨m', hrun, hs', hb'.mono fun g hg => ⟨hc'.trans hg.1, hg.2⟩, h.fits⟩

omit hsucc in
theorem flushAllDirty_of_clean {m : FileManager} (h : m.dirtyBlocks = OrdMap.empty) :
    m.flushAllDirty T.toEnv = some m := by
  have hnone : m.toFlush = [] := by
    unfold toFlush
    rw [h]
    rfl
  unfold flushAllDirty takeDirty
  rw [hnone, ← h]
  rfl

theorem Torrent.Durable.effect (h : T.Durable A s) {op : CacheOp} {m : FileManager}
    (heff : T.Effect s.manager op m) (hkeep : keepsDirty T.toEnv s.manager op) :
    T.Durable A { s with manager := m } := by
  cases heff with
  | moves hmoves => exact h.moves hsucc hmoves
  | inserted hread hmoves hins =>
    have h₁ := h.moves hsucc hmoves
    refine ⟨hins.sane h₁.sane, ?_, h₁.fits⟩
    refine (h₁.backed.inserted (hkeep _ _ hread) hins).mono fun g hg => ⟨?_, hg.2⟩
    exact hins.cancelled.trans hg.1

theorem durable_cache (h : T.Durable A s) {op : CacheOp} {m : FileManager}
    (horder : T.Orderly A s (.cache op)) (hop : op.step T.toEnv s.manager = some m) :
    T.Durable (T.write A op) { s with manager := m } := by
  by_cases hwrite : ∃ p data, op = .writePiece p data
  · obtain ⟨p, data, rfl⟩ := hwrite
    obtain ⟨m', hrun, hdur⟩ := durable_writePiece hsucc h horder.1
    rw [some.inj (hop.symm.trans hrun)]
    exact hdur
  · have hne : ∀ p data, op ≠ .writePiece p data := fun p data heq => hwrite ⟨p, data, heq⟩
    rw [write_of_ne T A hne]
    by_cases hclean : op = .flushAllDirty ∧ s.manager.dirtyBlocks = OrdMap.empty
    · -- a flush after the shutdown, with nothing to write
      rw [hclean.1] at hop
      rw [some.inj (hop.symm.trans (flushAllDirty_of_clean hclean.2))]
      exact h
    · have hc : op = .flushAllDirty → s.manager.ioCancelled = false := by
        rintro rfl
        exact horder.resolve_right fun hempty => hclean ⟨rfl, hempty⟩
      obtain ⟨m', hrun, heff⟩ := step_effect h.sane hne hc
      rw [some.inj (hop.symm.trans hrun)]
      refine h.effect hsucc heff ?_
      cases op with
      | flushAllDirty => trivial
      | writePiece p data => exact absurd rfl (hne p data)
      | readBlock => exact horder.2
      | touchCache => trivial
      | evictIfNeeded => trivial
      | syncFlushAllDirty => trivial

/-! ## Runs -/

theorem durable_step (h : T.Durable A s) {st : FlushStep} {s' : FileSystem}
    (horder : T.Orderly A s st) (hstep : st.step T.toEnv s = some s') :
    T.Durable (T.writeStep A st) s' := by
  cases st with
  | flushStart => exact durable_flushStart h horder hstep
  | poolWrite i => exact durable_poolWrite hsucc h horder hstep
  | poolCheck i => exact durable_poolCheck h hstep
  | cache op =>
    obtain ⟨m, hop, rfl⟩ := map_eq_some_iff.mp hstep
    exact durable_cache hsucc h horder hop
  | signalShutdown =>
    cases hstep
    refine ⟨⟨h.sane.stored, h.sane.dirty⟩, ⟨h.backed.dirty, fun g b hg _ => ?_⟩, h.fits⟩
    -- what only a pending write has would be lost now
    by_cases hpend : T.Pending A s g
    · exact horder g b hg hpend
    · exact h.backed.disk g b hg hpend

omit hsucc in
theorem cache_mem_of_mem_cacheOps {op : CacheOp} : ∀ {steps : List FlushStep},
    op ∈ cacheOps steps → .cache op ∈ steps
  | .cache op' :: steps, h => by
    cases mem_cons.mp h with
    | inl heq => rw [heq]; exact mem_cons_self ..
    | inr hmem => exact mem_cons_of_mem _ (cache_mem_of_mem_cacheOps hmem)
  | .flushStart :: _, h => mem_cons_of_mem _ (cache_mem_of_mem_cacheOps h)
  | .poolWrite _ :: _, h => mem_cons_of_mem _ (cache_mem_of_mem_cacheOps h)
  | .poolCheck _ :: _, h => mem_cons_of_mem _ (cache_mem_of_mem_cacheOps h)
  | .signalShutdown :: _, h => mem_cons_of_mem _ (cache_mem_of_mem_cacheOps h)

theorem durable_run (steps : List FlushStep) {s' : FileSystem} (h : T.Durable A s)
    (horder : T.OrderlyRun steps A s) (hrun : run T.toEnv steps s = some s') :
    T.Durable (steps.foldl T.writeStep A) s' ∧
      ∀ q data, .writePiece q data ∈ cacheOps steps → data.length = T.info.pieceLen q := by
  have hrec := runSteps_recording T.writeStep A hrun
  constructor
  · refine runSteps_invariant (I := fun r => T.Durable r.1 r.2) ?_ horder hrec h
    intro r st r' hok hstep h
    obtain ⟨s', hs', rfl⟩ := map_eq_some_iff.mp hstep
    exact durable_step hsucc h hok hs'
  · intro q data hmem
    refine horder.forall (p := fun st => st = .cache (.writePiece q data) →
      data.length = T.info.pieceLen q) ?_ hrec _ (cache_mem_of_mem_cacheOps hmem) rfl
    intro r st hok heq
    rw [heq] at hok
    exact hok.1.2.1

omit hsucc in
theorem foldl_writeStep (T : Torrent) : ∀ (steps : List FlushStep) (A : Nat → UInt8),
    steps.foldl T.writeStep A = (cacheOps steps).foldl T.write A
  | [], _ => rfl
  | st :: steps, A => by
    cases st with
    | cache op => exact foldl_writeStep T steps _
    | flushStart => exact foldl_writeStep T steps _
    | poolWrite i => exact foldl_writeStep T steps _
    | poolCheck i => exact foldl_writeStep T steps _
    | signalShutdown => exact foldl_writeStep T steps _

omit hsucc in
theorem durable_start {disk : Nat → Option Bytes} (hs : Stored T.toEnv disk T.info.files) :
    T.Durable (T.onDisk disk) ⟨.start disk, []⟩ := by
  have hstart := coherent_start hs
  exact ⟨hstart.sane, hstart.backed.mono nofun, fun kw (hkw : kw ∈ []) => absurd hkw not_mem_nil⟩

end Durable

/-- In an orderly run in which no file write fails, the final `sync_flush_all_dirty` after
    `signal_shutdown` leaves what was last passed to `write_piece` for every piece on disk. -/
theorem shutdown_durable (T : Torrent) (hsucc : ∀ h, T.outcome h = .success)
    (disk : Nat → Option Bytes) (hstored : Stored T.toEnv disk T.info.files)
    (steps : List FlushStep) (s : FileSystem)
    (hrun : run T.toEnv steps ⟨.start disk, []⟩ = some s)
    (horder : T.OrderlyRun steps (T.onDisk disk) ⟨.start disk, []⟩)
    (hdown : s.manager.ioCancelled = true) :
    ∃ m, s.manager.syncFlushAllDirty T.toEnv = some m ∧ Stored T.toEnv m.disk T.info.files ∧
      ∀ p data, lastWritten p (cacheOps steps) = some data → ∀ i < data.length, ∀ b,
        storedByte T.toEnv m.disk T.info.files (p * T.info.ps + i) = some b →
        data[i]? = some b := by
  obtain ⟨hdur, hlen⟩ := durable_run hsucc steps (durable_start hstored) horder hrun
  rw [foldl_writeStep] at hdur
  obtain ⟨m, hflush, hmoves, hclean⟩ := syncFlushAllDirty_moves hdur.sane
  have hdur' := hdur.moves hsucc hmoves
  refine ⟨m, hflush, hdur'.sane.stored, ?_⟩
  intro p data hlast i hi b hb
  -- pending writes are cancelled and nothing is dirty, so the files hold the content
  have hA := hdur'.backed.eq_of_clean hclean hb fun hg =>
    absurd ((Torrent.Moves.cancelled hmoves).symm.trans hg.1) (by rw [hdown]; exact nofun)
  rw [hA]
  exact getElem?_lastWritten T hlen hlast _ hi

/-! ## A shutdown that loses data -/

/-- A flush takes the block of a piece, and the shutdown cancels the write: when `stop` returns the
    file has the old bytes. -/
theorem shutdown_loses_block :
    (run twoByteEnv
      [.cache (.writePiece 0 [1, 2]), .flushStart, .signalShutdown, .poolWrite 0,
        .cache .syncFlushAllDirty] ⟨.start zeroDisk, []⟩).map
      (fun s => (twoByteTorrent fun _ => .success).pieceOnDisk s.manager.disk 0) =
    some [0, 0] := by
  decide +kernel

def flushedBeforeShutdown : List FlushStep :=
  [.cache (.writePiece 0 [1, 2]), .flushStart, .poolWrite 0, .poolCheck 0, .signalShutdown]

theorem shutdown_durable_two_bytes :
    ∃ s m, run twoByteEnv flushedBeforeShutdown ⟨.start zeroDisk, []⟩ = some s ∧
      s.manager.syncFlushAllDirty twoByteEnv = some m ∧
      ∀ b, storedByte twoByteEnv m.disk
        (twoByteTorrent fun _ => .success).info.files 0 = some b → b = 1 := by
  have hsome : ((run twoByteEnv flushedBeforeShutdown ⟨.start zeroDisk, []⟩).map fun s =>
      s.manager.ioCancelled) = some true := by decide +kernel
  obtain ⟨s, hrun, hdown⟩ := map_eq_some_iff.mp hsome
  have horder : (twoByteTorrent fun _ => .success).OrderlyRun flushedBeforeShutdown
      ((twoByteTorrent fun _ => .success).onDisk zeroDisk) ⟨.start zeroDisk, []⟩ := by
    refine stepsMeet_recording_cons.mpr ⟨⟨⟨by decide, by decide, by decide⟩, trivial⟩,
      fun s₁ h₁ => stepsMeet_recording_cons.mpr ⟨.inl ?_,
      fun s₂ h₂ => stepsMeet_recording_cons.mpr ⟨?_,
      fun s₃ h₃ => stepsMeet_recording_cons.mpr ⟨trivial,
      fun s₄ h₄ => stepsMeet_recording_cons.mpr ⟨?_, fun _ _ => trivial⟩⟩⟩⟩⟩
    · have hval : ((step twoByteEnv
          ⟨.start zeroDisk, []⟩ (.cache (.writePiece 0 [1, 2]))).map fun s =>
          s.manager.ioCancelled) = some false := by decide +kernel
      rw [h₁] at hval
      exact some.inj hval
    · -- the only write that is pending is the one of the block
      intro key w ws blocks ht _ g b hb
      have hval : ((run twoByteEnv (flushedBeforeShutdown.take 2) ⟨.start zeroDisk, []⟩).map fun s =>
          s.tasks.map (·.blocks)) =
          some [[(⟨0, 0⟩, (twoByteTorrent fun _ => .success).writes ⟨0, 0⟩ [1, 2])]] := by
        decide +kernel
      simp only [run, flushedBeforeShutdown, take, runSteps, h₁, h₂, bind_some, map_some,
        some.injEq] at hval
      have hblocks := congrArg (·[0]?) hval
      rw [getElem?_map, ht] at hblocks
      simp only [map_some, getElem?_cons_zero, some.injEq, cons.injEq,
        Prod.mk.injEq] at hblocks
      have hbyte := (twoByteTorrent fun _ => .success).writtenByte_writes
        (hblocks.1.2 ▸ mem_cons_self ..) hb
      exact .inl (some.inj (hbyte.2.2.symm.trans (some_patch hbyte.1 hbyte.2.1).symm))
    · -- it has been made, so nothing is pending
      have hval : ((run twoByteEnv (flushedBeforeShutdown.take 4) ⟨.start zeroDisk, []⟩).map
          (·.pending)) = some [] := by decide +kernel
      simp only [run, flushedBeforeShutdown, take, runSteps, h₁, h₂, h₃, h₄, bind_some, map_some,
        some.injEq] at hval
      rintro g b - ⟨-, kw, hkw, -⟩
      rw [hval] at hkw
      exact absurd hkw not_mem_nil
  obtain ⟨m, hflush, -, hdisk⟩ := shutdown_durable (twoByteTorrent fun _ => .success)
    (fun _ => rfl) zeroDisk (stored_zeroDisk _) _ s hrun horder hdown
  refine ⟨s, m, hrun, hflush, fun b hb => ?_⟩
  have := hdisk 0 [1, 2] rfl 0 (by decide) b hb
  exact (some.inj this).symm

end P2P
