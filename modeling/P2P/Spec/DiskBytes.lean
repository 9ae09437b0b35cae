import P2P.Spec.PieceMap

/-!
# The bytes of a torrent on disk

`storedByte` is the byte at a position of the torrent as the downloaded files hold it.
-/

namespace P2P

open FileManager List Option Nat

def Env.node (E : Env) (file : FileInfo) : Nat := E.resolve (E.getFullPathForFile file)

section Stored

variable (E : Env)

def storedByte (disk : Nat → Option Bytes) : List FileInfo → Nat → Option UInt8
  | [], _ => none
  | file :: files, g =>
    if g < file.bytes then
      if file.download then (disk (E.node file)).bind fun content => content[g]? else none
    else storedByte disk files (g - file.bytes)

def Stored (disk : Nat → Option Bytes) (files : List FileInfo) : Prop :=
  ∀ file ∈ files, file.download = true →
    ∃ content, disk (E.node file) = some content ∧ file.bytes ≤ content.length

variable {E} {disk disk' : Nat → Option Bytes}

theorem storedByte_isSome : ∀ (files : List FileInfo) (g : Nat),
    Stored E disk files → (∀ file ∈ files, file.download = true) → g < sizeSum files →
    ∃ b, storedByte E disk files g = some b
  | [], _, _, _, hg => absurd hg (not_lt_zero _)
  | file :: files, g, hs, hd, hg => by
    rw [sizeSum_cons] at hg
    unfold storedByte
    by_cases h : g < file.bytes
    · have hdown := hd file (mem_cons_self ..)
      obtain ⟨content, hdisk, hlen⟩ := hs file (mem_cons_self ..) hdown
      rw [if_pos h, if_pos hdown, hdisk, bind_some]
      exact ⟨_, getElem?_eq_getElem (by omega)⟩
    · rw [if_neg h]
      exact storedByte_isSome files _ (fun f hf => hs f (mem_cons_of_mem _ hf))
        (fun f hf => hd f (mem_cons_of_mem _ hf)) (by omega)

end Stored

/-! ## Writing -/

section Write

variable (E : Env)

def applyWrite (disk : Nat → Option Bytes) (w : FileWrite) : Nat → Option Bytes :=
  Function.update disk (E.resolve w.path)
    ((disk (E.resolve w.path)).map fun content => content.overwrite 0 w.offset w.data)

def applyWrites (disk : Nat → Option Bytes) (ws : List FileWrite) : Nat → Option Bytes :=
  ws.foldl (applyWrite E) disk

def writeEvents (key : CacheKey) (ws : List FileWrite) : List Event :=
  (ws.map fun w => Event.write key w true).reverse

variable {E} {disk : Nat → Option Bytes} {w : FileWrite} {n : Nat}

theorem applyWrites_cons (disk : Nat → Option Bytes) (w : FileWrite) (ws : List FileWrite) :
    applyWrites E disk (w :: ws) = applyWrites E (applyWrite E disk w) ws := rfl

theorem applyWrite_self {content : Bytes} (h : disk (E.resolve w.path) = some content) :
    applyWrite E disk w (E.resolve w.path) = some (content.overwrite 0 w.offset w.data) := by
  rw [applyWrite, Function.update_self, h, map_some]

theorem applyWrite_of_ne (h : n ≠ E.resolve w.path) : applyWrite E disk w n = disk n :=
  Function.update_of_ne h _ _

theorem length_le_overwrite (content : Bytes) (off : Nat) (d : Bytes) :
    content.length ≤ (content.overwrite 0 off d).length := by
  unfold overwrite
  split
  · exact Nat.le_refl _
  · simp only [length_append, length_take, length_replicate, length_drop]
    omega

theorem exists_applyWrites : ∀ (ws : List FileWrite) (disk : Nat → Option Bytes)
    (content : Bytes), disk n = some content →
    ∃ content', applyWrites E disk ws n = some content' ∧ content.length ≤ content'.length
  | [], _, content, h => ⟨content, h, Nat.le_refl _⟩
  | w :: ws, disk, content, h => by
    rw [applyWrites_cons]
    by_cases hn : n = E.resolve w.path
    · have hw : applyWrite E disk w n = _ := hn ▸ applyWrite_self (hn ▸ h)
      obtain ⟨content', h', hle⟩ := exists_applyWrites ws _ _ hw
      exact ⟨content', h', le_trans (length_le_overwrite ..) hle⟩
    · exact exists_applyWrites ws _ content (by rw [applyWrite_of_ne hn, h])

theorem Stored.applyWrites {files : List FileInfo} (hs : Stored E disk files)
    (ws : List FileWrite) : Stored E (applyWrites E disk ws) files := by
  intro file hf hd
  obtain ⟨content, hdisk, hlen⟩ := hs file hf hd
  obtain ⟨content', hdisk', hle⟩ := exists_applyWrites ws disk content hdisk
  exact ⟨content', hdisk', le_trans hlen hle⟩

def FileWrite.Fits (E : Env) (files : List FileInfo) (w : FileWrite) : Prop :=
  ∃ file ∈ files, file.download = true ∧ w.path = E.getFullPathForFile file ∧
    w.offset ≤ file.bytes

theorem mem_fileWrites {lo : Nat} {data : Bytes} :
    ∀ (files : List FileInfo) (start : Nat), w ∈ fileWrites E lo data files start →
    w.Fits E files
  | [], _, h => nomatch h
  | file :: files, start, h => by
    simp only [fileWrites] at h
    have htail : w ∈ fileWrites E lo data files (start + file.bytes) →
        w.Fits E (file :: files) := by
      intro hmem
      obtain ⟨file', hf, hrest⟩ := mem_fileWrites files _ hmem
      exact ⟨file', mem_cons_of_mem _ hf, hrest⟩
    split at h
    · next hcond =>
      cases mem_cons.mp h with
      | inl heq =>
        subst heq
        exact ⟨file, mem_cons_self .., hcond.1, rfl, by
          show max lo start - start ≤ file.bytes
          omega⟩
      | inr hmem => exact htail hmem
    · exact htail h

theorem fileWrites_nodup (lo : Nat) (data : Bytes) : ∀ (files : List FileInfo) (start : Nat),
    (files.map E.node).Nodup → (fileWrites E lo data files start).Nodup
  | [], _, _ => nodup_nil
  | file :: files, start, hnd => by
    have hnd' := nodup_cons.mp hnd
    have hrec := fileWrites_nodup lo data files (start + file.bytes) hnd'.2
    simp only [fileWrites]
    split
    · refine nodup_cons.mpr ⟨fun hmem => ?_, hrec⟩
      -- the writes behind it go to other files
      obtain ⟨file', hf, -, hpath, -⟩ := mem_fileWrites files _ hmem
      exact hnd'.1 (mem_map.mpr ⟨file', hf, (congrArg E.resolve hpath).symm⟩)
    · exact hrec

/-! ## One file write -/

def writtenByte (E : Env) (w : FileWrite) : List FileInfo → Nat → Option UInt8
  | [], _ => none
  | file :: files, g =>
    if g < file.bytes then
      if E.node file = E.resolve w.path ∧ w.offset ≤ g then w.data[g - w.offset]? else none
    else writtenByte E w files (g - file.bytes)

theorem writtenByte_eq_none : ∀ (files : List FileInfo) (g : Nat),
    (∀ file ∈ files, E.node file ≠ E.resolve w.path) → writtenByte E w files g = none
  | [], _, _ => rfl
  | file :: files, g, h => by
    unfold writtenByte
    split
    · exact if_neg fun hn => h file (mem_cons_self ..) hn.1
    · exact writtenByte_eq_none files _ fun f hf => h f (mem_cons_of_mem _ hf)

theorem storedByte_applyWrite {content : Bytes}
    (hdisk : disk (E.resolve w.path) = some content) (hoff : w.offset ≤ content.length) :
    ∀ (files : List FileInfo) (g : Nat), Stored E disk files →
    storedByte E (applyWrite E disk w) files g =
      (storedByte E disk files g).map fun b => (writtenByte E w files g).getD b
  | [], _, _ => rfl
  | file :: files, g, hs => by
    unfold storedByte writtenByte
    by_cases hg : g < file.bytes
    · rw [if_pos hg, if_pos hg, if_pos hg]
      cases hd : file.download with
      | false => rfl
      | true =>
        rw [if_pos rfl, if_pos rfl]
        by_cases hn : E.node file = E.resolve w.path
        · -- the file that is written: it has a byte at this position before and after
          obtain ⟨content', hdisk', hlen⟩ := hs file (mem_cons_self ..) hd
          rw [hn] at hdisk'
          obtain rfl : content = content' := some.inj (hdisk.symm.trans hdisk')
          obtain ⟨b, hb⟩ : ∃ b, content[g]? = some b := ⟨_, getElem?_eq_getElem (by omega)⟩
          rw [hn, applyWrite_self hdisk, hdisk, bind_some, bind_some,
            getElem?_overwrite 0 _ hoff, hb, map_some]
          by_cases hin : w.offset ≤ g
          · by_cases hend : g < w.offset + w.data.length
            · rw [if_pos ⟨hin, hend⟩, if_pos ⟨rfl, hin⟩, getElem?_eq_getElem (by omega), getD_some]
            · rw [if_neg (by omega), if_pos ⟨rfl, hin⟩, getElem?_eq_none (by omega),
                Option.getD_none]
          · rw [if_neg (by omega), if_neg fun h => hin h.2, Option.getD_none]
        · rw [applyWrite_of_ne hn, if_neg fun h => hn h.1]
          simp only [Option.getD_none, Option.map_id']
    · rw [if_neg hg, if_neg hg, if_neg hg]
      exact storedByte_applyWrite hdisk hoff files _ fun f hf => hs f (mem_cons_of_mem _ hf)

theorem writtenByte_fileWrites {lo : Nat} {data : Bytes} {b : UInt8} :
    ∀ (files : List FileInfo) (start g : Nat), (files.map E.node).Nodup →
    w ∈ fileWrites E lo data files start → writtenByte E w files g = some b →
    lo ≤ start + g ∧ data[start + g - lo]? = some b
  | [], _, _, _, hw, _ => absurd hw not_mem_nil
  | file :: files, start, g, hnd, hw, hb => by
    have hnd' := nodup_cons.mp hnd
    simp only [fileWrites] at hw
    -- a write for another file is not for this one, and the other way round
    have htail : w ∈ fileWrites E lo data files (start + file.bytes) →
        lo ≤ start + g ∧ data[start + g - lo]? = some b := by
      intro hmem
      unfold writtenByte at hb
      by_cases hg : g < file.bytes
      · obtain ⟨file', hf, -, hpath, -⟩ := mem_fileWrites files _ hmem
        rw [if_pos hg, if_neg] at hb
        · cases hb
        · intro h
          rw [hpath] at h
          exact hnd'.1 (mem_map.mpr ⟨file', hf, h.1.symm⟩)
      · rw [if_neg hg] at hb
        have := writtenByte_fileWrites files (start + file.bytes) (g - file.bytes) hnd'.2 hmem hb
        rwa [show start + file.bytes + (g - file.bytes) = start + g by omega] at this
    split at hw
    · next hcond =>
      cases mem_cons.mp hw with
      | inr hmem => exact htail hmem
      | inl heq =>
        have hpath : E.resolve w.path = E.node file := by rw [heq]; rfl
        unfold writtenByte at hb
        by_cases hg : g < file.bytes
        · rw [if_pos hg] at hb
          split at hb
          · next hin =>
            rw [heq] at hb hin
            dsimp only at hb hin
            rw [getElem?_slice] at hb
            split at hb
            · rw [show max lo start - lo + (g - (max lo start - start)) = start + g - lo by
                omega] at hb
              exact ⟨by omega, hb⟩
            · cases hb
          · cases hb
        · -- behind this file nothing has its place on disk
          rw [if_neg hg] at hb
          exact absurd hb (by
            rw [writtenByte_eq_none files _ fun f hf h => hnd'.1
              (mem_map.mpr ⟨f, hf, h.trans hpath⟩)]
            exact (some_ne_none b).symm)
    · exact htail hw

theorem exists_writtenByte (lo : Nat) (data : Bytes) {b : UInt8} :
    ∀ (files : List FileInfo) (start g : Nat), storedByte E disk files g = some b →
    lo ≤ start + g → start + g < lo + data.length →
    ∃ w ∈ fileWrites E lo data files start, ∃ b', writtenByte E w files g = some b'
  | [], _, _, hb, _, _ => absurd hb.symm (some_ne_none b)
  | file :: files, start, g, hb, hlo, hhi => by
    unfold storedByte at hb
    simp only [fileWrites, writtenByte]
    by_cases hg : g < file.bytes
    · rw [if_pos hg] at hb
      cases hd : file.download with
      | false => rw [hd] at hb; cases hb
      | true =>
        -- the block and the file meet at this position, so the file is written
        rw [if_pos ⟨rfl, by omega⟩]
        refine ⟨_, mem_cons_self .., ?_⟩
        rw [if_pos hg, if_pos ⟨rfl, by dsimp only; omega⟩]
        dsimp only
        rw [getElem?_slice, if_pos (by omega)]
        exact ⟨_, getElem?_eq_getElem (by omega)⟩
    · rw [if_neg hg] at hb
      obtain ⟨w, hw, b', hb'⟩ := exists_writtenByte lo data files (start + file.bytes)
        (g - file.bytes) hb (by omega) (by omega)
      refine ⟨w, ?_, b', by rw [if_neg hg]; exact hb'⟩
      split
      · exact mem_cons_of_mem _ hw
      · exact hw

theorem writtenByte_take {b : UInt8} :
    ∀ (files : List FileInfo) (g : Nat),
    writtenByte E { w with data := w.data.take n } files g = some b →
    writtenByte E w files g = some b
  | [], _, h => nomatch h
  | file :: files, g, h => by
    unfold writtenByte at h ⊢
    split at h
    · next hg =>
      rw [if_pos hg]
      split at h
      · next hin =>
        rw [if_pos hin]
        dsimp only at h
        rw [getElem?_take] at h
        split at h
        · exact h
        · cases h
      · cases h
    · next hg =>
      rw [if_neg hg]
      exact writtenByte_take files _ h

theorem storedByte_applyWrites_same {files : List FileInfo} {g : Nat} {c : UInt8} :
    ∀ (ws : List FileWrite) (disk : Nat → Option Bytes), Stored E disk files →
    (∀ w ∈ ws, w.Fits E files) → (∀ w ∈ ws, ∀ b, writtenByte E w files g = some b → b = c) →
    storedByte E (applyWrites E disk ws) files g = (storedByte E disk files g).map fun b =>
      if ∃ w ∈ ws, (writtenByte E w files g).isSome then c else b
  | [], _, _, _, _ => by simp [applyWrites]
  | w :: ws, disk, hs, hfit, hsame => by
    obtain ⟨file, hf, hd, hpath, hoff⟩ := hfit w (mem_cons_self ..)
    obtain ⟨content, hdisk, hlen⟩ := hs file hf hd
    have hdisk' : disk (E.resolve w.path) = some content := by rw [hpath]; exact hdisk
    have hfirst := storedByte_applyWrite hdisk' (le_trans hoff hlen) files g hs
    have hrest := storedByte_applyWrites_same ws (applyWrite E disk w) (hs.applyWrites [w])
      (fun v hv => hfit v (mem_cons_of_mem _ hv))
      (fun v hv => hsame v (mem_cons_of_mem _ hv))
    rw [applyWrites_cons, hrest, hfirst]
    cases storedByte E disk files g with
    | none => rfl
    | some b =>
      cases hw : writtenByte E w files g with
      | none => simp [hw]
      | some b' => simp [hw, hsame w (mem_cons_self ..) b' hw]

theorem storedByte_applyWrites {files : List FileInfo} {g : Nat} (ws : List FileWrite)
    (disk : Nat → Option Bytes) (hs : Stored E disk files) (hfit : ∀ w ∈ ws, w.Fits E files)
    (hnone : ∀ w ∈ ws, writtenByte E w files g = none) :
    storedByte E (applyWrites E disk ws) files g = storedByte E disk files g := by
  have hno : ¬ ∃ w ∈ ws, (writtenByte E w files g).isSome := by
    rintro ⟨w, hw, hsome⟩
    simp [hnone w hw] at hsome
  rw [storedByte_applyWrites_same (c := 0) ws disk hs hfit (by simp +contextual [hnone])]
  simp only [if_neg hno, Option.map_id']

theorem storedByte_fileWrites (lo : Nat) (data : Bytes) (files : List FileInfo) (start : Nat)
    (disk : Nat → Option Bytes) (hnd : (files.map E.node).Nodup) (hs : Stored E disk files)
    (g : Nat) : storedByte E (applyWrites E disk (fileWrites E lo data files start)) files g =
      (storedByte E disk files g).map fun b => patch (fun _ => b) lo data (start + g) := by
  have hfit : ∀ w ∈ fileWrites E lo data files start, w.Fits E files := fun _ hw =>
    mem_fileWrites files start hw
  have hwritten : ∀ w ∈ fileWrites E lo data files start, ∀ b, writtenByte E w files g = some b →
      lo ≤ start + g ∧ data[start + g - lo]? = some b := fun _ hw _ hb =>
    writtenByte_fileWrites files start g hnd hw hb
  by_cases hin : lo ≤ start + g ∧ start + g < lo + data.length
  · -- every write that reaches the position puts the byte of the block there, and one does
    obtain ⟨c, hc⟩ : ∃ c, data[start + g - lo]? = some c := ⟨_, getElem?_eq_getElem (by omega)⟩
    rw [storedByte_applyWrites_same _ disk hs hfit fun w hw b hb =>
      some.inj ((hwritten w hw b hb).2.symm.trans hc)]
    refine Option.map_congr fun b hb => ?_
    obtain ⟨w, hw, b', hb'⟩ := exists_writtenByte lo data files start g hb hin.1 hin.2
    rw [if_pos ⟨w, hw, hb' ▸ rfl⟩, patch_of_mem hin.1 hc]
  · have hout : ∀ b : UInt8, patch (fun _ => b) lo data (start + g) = b := fun b =>
      patch_of_not_mem (by omega)
    simp only [hout, Option.map_id']
    refine storedByte_applyWrites _ disk hs hfit fun w hw => eq_none_iff_forall_ne_some.mpr ?_
    intro b hb
    obtain ⟨hlo, hget⟩ := hwritten w hw b hb
    have := (List.getElem?_eq_some_iff.mp hget).1
    omega

/-! ## The writes of a block -/

section WriteAll

variable {key : CacheKey} {m : FileManager} {content : Bytes}

theorem writeFile_ok (hout : E.outcome m.log = .success)
    (hfile : m.disk (E.resolve w.path) = some content) (hoff : w.offset < 2 ^ 63) :
    writeFile E key w m = (true, { m with
      disk := applyWrite E m.disk w
      log := .write key w true :: m.log }) := by
  simp only [writeFile, hfile, if_pos hoff, hout, applyWrite, map_some]

theorem writeFile_failed (hout : E.outcome m.log = .failure n)
    (hfile : m.disk (E.resolve w.path) = some content) (hoff : w.offset < 2 ^ 63) :
    writeFile E key w m = (false, { m with
      disk := applyWrite E m.disk { w with data := w.data.take n }
      log := .write key w false :: m.log }) := by
  simp only [writeFile, hfile, if_pos hoff, hout, applyWrite, map_some]

theorem writeAll_cases (key : CacheKey) : ∀ (ws : List FileWrite) (m : FileManager),
    (∀ w ∈ ws, (∃ content, m.disk (E.resolve w.path) = some content) ∧ w.offset < 2 ^ 63) →
    writeAll E key ws m = { m with
      disk := applyWrites E m.disk ws
      log := writeEvents key ws ++ m.log } ∨
    ∃ made w rest n, ws = made ++ w :: rest ∧ (∃ h, E.outcome h = .failure n) ∧
      writeAll E key ws m = { m with
        disk := applyWrites E m.disk (made ++ [{ w with data := w.data.take n }])
        log := .write key w false :: (writeEvents key made ++ m.log) }
  | [], m, _ => .inl rfl
  | w :: ws, m, h => by
    obtain ⟨⟨content, hfile⟩, hoff⟩ := h w (mem_cons_self ..)
    cases hout : E.outcome m.log with
    | failure n =>
      -- the first write fails, and the others are not tried
      right
      refine ⟨[], w, ws, n, rfl, ⟨m.log, hout⟩, ?_⟩
      simp only [writeAll, writeFile_failed hout hfile hoff]
      rfl
    | success =>
      -- the files are still there after the first write
      have hrec := writeAll_cases key ws
        { m with disk := applyWrite E m.disk w, log := .write key w true :: m.log } (by
          intro v hv
          obtain ⟨⟨content', hfile'⟩, hoff'⟩ := h v (mem_cons_of_mem _ hv)
          obtain ⟨content'', hfile'', -⟩ := exists_applyWrites (E := E) [w] m.disk _ hfile'
          exact ⟨⟨content'', hfile''⟩, hoff'⟩)
      have hlog : ∀ made : List FileWrite, writeEvents key (w :: made) =
          writeEvents key made ++ [.write key w true] := fun made => by simp [writeEvents]
      simp only [writeAll, writeFile_ok hout hfile hoff]
      cases hrec with
      | inl hall =>
        left
        rw [hall, hlog, append_assoc]
        rfl
      | inr hfail =>
        obtain ⟨made, v, rest, n, hws, hn, heq⟩ := hfail
        right
        refine ⟨w :: made, v, rest, n, by rw [hws]; rfl, hn, ?_⟩
        rw [heq, hlog, append_assoc]
        rfl

theorem writeFile_frame (key : CacheKey) (w : FileWrite) (m : FileManager) :
    ∃ made disk log, ∀ D, writeFile E key w { m with dirtyBlocks := D } =
      (made, { m with dirtyBlocks := D, disk := disk, log := log }) := by
  unfold writeFile
  dsimp only
  cases m.disk (E.resolve w.path) with
  | none => exact ⟨_, _, _, fun _ => rfl⟩
  | some content =>
    by_cases hoff : w.offset < 2 ^ 63
    · simp only [if_pos hoff]
      cases E.outcome m.log with
      | success => exact ⟨_, _, _, fun _ => rfl⟩
      | failure n => exact ⟨_, _, _, fun _ => rfl⟩
    · simp only [if_neg hoff]
      exact ⟨_, _, _, fun _ => rfl⟩

theorem writeAll_frame (key : CacheKey) : ∀ (ws : List FileWrite) (m : FileManager),
    ∃ disk log, ∀ D, writeAll E key ws { m with dirtyBlocks := D } =
      { m with dirtyBlocks := D, disk := disk, log := log }
  | [], m => ⟨m.disk, m.log, fun _ => rfl⟩
  | w :: ws, m => by
    obtain ⟨made, disk, log, hw⟩ := writeFile_frame (E := E) key w m
    unfold writeAll
    cases made with
    | false => exact ⟨disk, log, fun D => by rw [hw D]⟩
    | true =>
      obtain ⟨disk', log', hws⟩ := writeAll_frame key ws { m with disk := disk, log := log }
      exact ⟨disk', log', fun D => by rw [hw D]; exact hws D⟩

end WriteAll

theorem asyncWriteAll_eq {m : FileManager} (hc : m.ioCancelled = false) (key : CacheKey)
    (ws : List FileWrite) : asyncWriteAll E key ws m = writeAll E key ws m := by
  induction ws generalizing m with
  | nil => rfl
  | cons w ws ih =>
    obtain ⟨made, disk, log, hframe⟩ := writeFile_frame (E := E) key w m
    have hw : writeFile E key w m = (made, { m with disk := disk, log := log }) :=
      hframe m.dirtyBlocks
    unfold asyncWriteAll writeAll asyncWriteToFile
    rw [hc, if_neg Bool.false_ne_true, hw]
    cases made with
    | false => rfl
    | true => exact ih (m := { m with disk := disk, log := log }) hc

end Write

/-! ## Reading -/

section Read

variable {E : Env} {m : FileManager} {path : PosixPath} {off size : Nat}

theorem asyncReadFromFile_eq (hc : m.ioCancelled = false) (hoff : off < 2 ^ 63) (hsize : 0 < size)
    (hlt : size < 2 ^ 32) :
    asyncReadFromFile E m path off size = match m.disk (E.resolve path) with
      | none => .error .ioError
      | some content =>
        if off + size ≤ content.length then .ok (content.slice off size) else .error .ioError := by
  unfold asyncReadFromFile
  rw [hc, if_neg Bool.false_ne_true]
  cases m.disk (E.resolve path) with
  | none => rfl
  | some content =>
    have hu : u64 (off + size) = off + size := Nat.mod_eq_of_lt (by omega)
    simp only [hu, if_neg (Nat.ne_of_gt hsize), if_neg (Nat.not_le_of_lt hoff), List.length_slice]
    by_cases h : off + size ≤ content.length
    · rw [if_neg (by omega), if_pos (by omega), if_pos h]
    · rw [if_pos (by omega), if_neg h]

theorem asyncReadFromFile_of_ge (hoff : 2 ^ 63 ≤ off) (part : Bytes) :
    asyncReadFromFile E m path off size ≠ .ok part := by
  unfold asyncReadFromFile
  intro h
  split at h
  · exact nomatch h
  · split at h
    · exact nomatch h
    · split at h
      · exact nomatch h
      · exact nomatch h

variable {go length start r : Nat} {file : FileInfo} {block : Bytes}

section ReadPart

variable (hend : start + file.bytes < 2 ^ 63) (hgo : go + length < 2 ^ 64)

include hend in
theorem fileEnd_eq : u64 (start + file.bytes) = start + file.bytes :=
  Nat.mod_eq_of_lt (by omega)

include hgo in
theorem readStart_eq (hr : r ≤ length) : u64 (go + r) = go + r :=
  Nat.mod_eq_of_lt (by omega)

include hend hgo

theorem readPart_before (hr : r ≤ length) (h : start + file.bytes ≤ go + r) :
    readPart E m go length file start r block = .ok (r, block) := by
  simp only [readPart, fileEnd_eq hend, readStart_eq hgo hr]
  rw [if_neg (by omega)]

variable (hlen : length < 2 ^ 32) (hr : r < length)

include hlen hr

omit hgo in
theorem bytesToRead_pos (h : go + r < start + file.bytes) :
    0 < u32 (min (sub32 length r) (sub64 file.bytes (sub64 (go + r) start))) := by
  unfold u32 sub32 sub64
  omega

theorem readPart_inside (block : Bytes) (hc : m.ioCancelled = false) (hlo : start ≤ go + r)
    (hhi : go + r < start + file.bytes) :
    readPart E m go length file start r block = match m.disk (E.node file) with
      | none => .error .ioError
      | some content =>
        if go + r - start + min (length - r) (start + file.bytes - (go + r)) ≤ content.length then
          .ok (r + min (length - r) (start + file.bytes - (go + r)),
            block.overwrite 0 r (content.slice (go + r - start)
              (min (length - r) (start + file.bytes - (go + r)))))
        else .error .ioError := by
  have h₃ : sub64 (go + r) start = go + r - start := by unfold sub64; omega
  have h₄ : sub64 file.bytes (go + r - start) = start + file.bytes - (go + r) := by
    unfold sub64
    omega
  have h₅ : sub32 length r = length - r := by unfold sub32; omega
  generalize hn : min (length - r) (start + file.bytes - (go + r)) = n
  have h₆ : u32 n = n := Nat.mod_eq_of_lt (by omega)
  have h₇ : u32 (r + n) = r + n := Nat.mod_eq_of_lt (by omega)
  simp only [readPart, fileEnd_eq hend, readStart_eq hgo hr.le, h₃, h₄, h₅, hn, h₆, h₇]
  rw [if_pos hhi, if_pos (by omega), asyncReadFromFile_eq hc (by omega) (by omega) (by omega)]
  rw [show E.resolve (E.getFullPathForFile file) = E.node file from rfl]
  cases m.disk (E.node file) with
  | none => rfl
  | some content =>
    dsimp only
    by_cases h : go + r - start + n ≤ content.length
    · rw [if_pos h, if_pos h]
    · rw [if_neg h, if_neg h]

theorem readPart_behind (hlo : go + r < start) (res : Nat × Bytes) :
    readPart E m go length file start r block ≠ .ok res := by
  have hfar : 2 ^ 63 ≤ sub64 (go + r) start := by unfold sub64; omega
  simp only [readPart, fileEnd_eq hend, readStart_eq hgo hr.le]
  rw [if_pos (by omega), if_pos (bytesToRead_pos hend hlen hr (by omega))]
  intro h
  split at h
  · cases h
  · next part hpart => exact asyncReadFromFile_of_ge hfar part hpart

theorem readPart_cancelled (hc : m.ioCancelled = true) (hhi : go + r < start + file.bytes)
    (res : Nat × Bytes) : readPart E m go length file start r block ≠ .ok res := by
  simp only [readPart, fileEnd_eq hend, readStart_eq hgo hr.le, asyncReadFromFile, if_pos hc]
  rw [if_pos hhi, if_pos (bytesToRead_pos hend hlen hr hhi)]
  exact nofun

end ReadPart

theorem readFiles_complete : ∀ (files : List FileInfo) (start : Nat),
    readFiles E m go length files start length block = .ok (length, block)
  | [], _ => rfl
  | file :: files, start => by
    unfold readFiles
    cases hd : file.download with
    | false => exact readFiles_complete files _
    | true =>
      have hsub : sub32 length length = 0 := by unfold sub32; omega
      have hpart : readPart E m go length file start length block = .ok (length, block) := by
        simp only [readPart, hsub, zero_min, u32, zero_mod, gt_iff_lt,
          lt_irrefl, if_false, ite_self]
      simp only [hpart, Bool.not_true, Bool.false_eq_true, if_false, if_true]

variable {files : List FileInfo} {disk : Nat → Option Bytes} {g : Nat}

theorem storedByte_inside (hlo : start ≤ g) (hhi : g < start + file.bytes) :
    storedByte E disk (file :: files) (g - start) =
      if file.download then (disk (E.node file)).bind fun content => content[g - start]?
      else none := by
  rw [storedByte, if_pos (by omega)]

theorem storedByte_past (hpast : start + file.bytes ≤ g) :
    storedByte E disk (file :: files) (g - start) =
      storedByte E disk files (g - (start + file.bytes)) := by
  rw [storedByte, if_neg (by omega), Nat.sub_sub]

theorem readFiles_behind (hgo : go + length < 2 ^ 64) (hlen : length < 2 ^ 32) (hr : r < length)
    (block' : Bytes) : ∀ (files : List FileInfo) (start : Nat), start + sizeSum files < 2 ^ 63 →
    go + r < start →
    readFiles E m go length files start r block ≠ .ok (length, block')
  | [], _, _, _, h => by
    simp only [readFiles, Except.ok.injEq, Prod.mk.injEq] at h
    omega
  | file :: files, start, hsum, hlo, h => by
    rw [sizeSum_cons] at hsum
    unfold readFiles at h
    simp only [fileEnd_eq (show start + file.bytes < 2 ^ 63 by omega)] at h
    cases hd : file.download with
    | false =>
      simp only [hd, Bool.not_false, if_true] at h
      exact readFiles_behind hgo hlen hr block' files _ (by omega) (by omega) h
    | true =>
      simp only [hd, Bool.not_true, Bool.false_eq_true, if_false] at h
      split at h
      · cases h
      · next hpart => exact readPart_behind (by omega) hgo hlen hr hlo _ hpart

/-- **What the walk over the files reads.** The block is completed exactly if the pool is at work and
    the files hold all the bytes that are missing. -/
theorem readFiles_eq_ok (hgo : go + length < 2 ^ 64) (hlen : length < 2 ^ 32) (block' : Bytes) :
    ∀ (files : List FileInfo) (start r : Nat) (block : Bytes), start + sizeSum files < 2 ^ 63 →
    start ≤ go + r → r < length → block.length = length →
    (readFiles E m go length files start r block = .ok (length, block') ↔
      m.ioCancelled = false ∧ block'.length = length ∧ ∀ i < length, block'[i]? =
        if i < r then block[i]? else storedByte E m.disk files (go + i - start))
  | [], start, r, block, _, _, hr, _ => by
    refine iff_of_false (fun h => ?_) ?_
    · simp only [readFiles, Except.ok.injEq, Prod.mk.injEq] at h
      omega
    · rintro ⟨-, hlen', h⟩
      have hnone := h r hr
      rw [if_neg (lt_irrefl r), storedByte, List.getElem?_eq_none_iff] at hnone
      omega
  | file :: files, start, r, block, hsum, hlo, hr, hb => by
    rw [sizeSum_cons] at hsum
    have hend : start + file.bytes < 2 ^ 63 := by omega
    unfold readFiles
    simp only [fileEnd_eq hend]
    by_cases hpast : start + file.bytes ≤ go + r
    · simp only [readPart_before hend hgo hr.le hpast, if_neg (Nat.ne_of_lt hr), ite_self]
      rw [readFiles_eq_ok hgo hlen block' files _ r block (by omega) hpast hr hb]
      refine and_congr_right fun _ => and_congr_right fun _ => forall₂_congr fun i _ => ?_
      by_cases hi : i < r
      · rw [if_pos hi, if_pos hi]
      · rw [if_neg hi, if_neg hi, storedByte_past (by omega)]
    -- the file should hold the next bytes; where one is missing the block cannot be completed
    have hmissing : ∀ i, r ≤ i → i < length → go + i < start + file.bytes →
        (if file.download then (m.disk (E.node file)).bind fun content => content[go + i - start]?
          else none) = none →
        ¬ (m.ioCancelled = false ∧ block'.length = length ∧ ∀ i < length, block'[i]? =
          if i < r then block[i]? else storedByte E m.disk (file :: files) (go + i - start)) := by
      rintro i h₁ h₂ h₃ hnone ⟨-, hlen', h⟩
      have hi := h i h₂
      rw [if_neg (by omega), storedByte_inside (by omega) h₃, hnone,
        List.getElem?_eq_none_iff] at hi
      omega
    cases hd : file.download with
    | false =>
      refine iff_of_false ?_ (hmissing r (Nat.le_refl r) hr (by omega) (by rw [hd]; rfl))
      exact readFiles_behind hgo hlen hr block' files _ (by omega) (by omega)
    | true =>
      simp only [Bool.not_true, Bool.false_eq_true, if_false]
      by_cases hc : m.ioCancelled = true
      · refine iff_of_false (fun h => ?_) fun h => absurd (hc.symm.trans h.1) nofun
        split at h
        · cases h
        · next hpart => exact readPart_cancelled hend hgo hlen hr hc (by omega) _ hpart
      have hpart := readPart_inside (E := E) hend hgo hlen hr block (by simpa using hc) hlo
        (by omega)
      cases hdisk : m.disk (E.node file) with
      | none =>
        simp only [hpart, hdisk]
        exact iff_of_false nofun (hmissing r (Nat.le_refl r) hr (by omega) (by rw [hd, hdisk]; rfl))
      | some content =>
        generalize hn : min (length - r) (start + file.bytes - (go + r)) = n at hpart
        by_cases hfit : go + r - start + n ≤ content.length
        · have hslice : (content.slice (go + r - start) n).length = n := by
            rw [List.length_slice]
            omega
          simp only [hpart, hdisk, if_pos hfit]
          generalize hb₁ : block.overwrite 0 r (content.slice (go + r - start) n) = block₁
          have hlen₁ : block₁.length = length := by
            rw [← hb₁, length_overwrite 0 _ (by omega), hb]
          -- the bytes read before, those of this file, and those behind it
          have hsame : ∀ i < length,
              (if i < r then block[i]? else storedByte E m.disk (file :: files) (go + i - start)) =
              if i < r + n then block₁[i]?
              else storedByte E m.disk files (go + i - (start + file.bytes)) := by
            intro i hi
            rw [← hb₁, getElem?_overwrite 0 _ (by omega), hslice, getElem?_slice]
            by_cases hir : i < r
            · rw [if_pos hir, if_pos (by omega), if_neg (by omega)]
            · by_cases hin : i < r + n
              · rw [if_neg hir, if_pos hin, if_pos ⟨by omega, hin⟩, if_pos (by omega),
                  storedByte_inside (by omega) (by omega), if_pos hd, hdisk, bind_some,
                  show go + r - start + (i - r) = go + i - start by omega]
              · rw [if_neg hir, if_neg hin, storedByte_past (by omega)]
          rw [forall₂_congr fun i hi => by rw [hsame i hi]]
          by_cases hdone : r + n = length
          · rw [if_pos hdone, hdone, Except.ok.injEq, Prod.mk.injEq]
            constructor
            · rintro ⟨-, rfl⟩
              exact ⟨by simpa using hc, hlen₁, fun i hi => by rw [if_pos hi]⟩
            · rintro ⟨-, hlen', h⟩
              refine ⟨rfl, List.ext_getElem (hlen₁.trans hlen'.symm) fun i h₁ h₂ => ?_⟩
              have hi := h i (by omega)
              rw [if_pos (by omega), getElem?_eq_getElem h₁, getElem?_eq_getElem h₂] at hi
              exact (some.inj hi).symm
          · rw [if_neg hdone]
            exact readFiles_eq_ok hgo hlen block' files _ (r + n) block₁ (by omega) (by omega)
              (by omega) hlen₁
        · simp only [hpart, hdisk, if_neg hfit]
          refine iff_of_false nofun (hmissing (r + n - 1) (by omega) (by omega) (by omega) ?_)
          rw [if_pos hd, hdisk, bind_some, List.getElem?_eq_none_iff]
          omega

theorem globalOffset_eq (p begin ps : Nat) (h : p * ps + begin < 2 ^ 64) :
    u64 (u64 (p * ps) + begin) = p * ps + begin := by
  unfold u64
  rw [mod_add_mod]
  exact Nat.mod_eq_of_lt h

variable {key : CacheKey}

theorem readFromDisk_zero : readFromDisk E m key 0 = .ok [] := by
  simp only [readFromDisk, readFiles_complete, replicate_zero, if_true]

section

variable (hsum : sizeSum E.info.files < 2 ^ 63)
  (hgo : key.piece * E.info.ps + key.offset + length < 2 ^ 64) (hlen : length < 2 ^ 32)

include hsum hgo hlen

theorem readFromDisk_eq_ok (hpos : 0 < length) :
    readFromDisk E m key length = .ok block ↔ m.ioCancelled = false ∧ block.length = length ∧
      ∀ i < length, block[i]? =
        storedByte E m.disk E.info.files (key.piece * E.info.ps + key.offset + i) := by
  have hiff := readFiles_eq_ok (E := E) (m := m) hgo hlen block E.info.files 0 0
    (replicate length 0) (by omega) (zero_le _) hpos length_replicate
  simp only [not_lt_zero, if_false, Nat.sub_zero] at hiff
  have hgo' := globalOffset_eq key.piece key.offset E.info.ps (by omega)
  rw [← hiff]
  simp only [readFromDisk, hgo']
  cases readFiles E m (key.piece * E.info.ps + key.offset) length E.info.files 0 0
    (replicate length 0) with
  | error e => simp
  | ok p => by_cases hp : p.1 = length <;> simp [hp, Prod.ext_iff]

theorem readFromDisk_ok (hc : m.ioCancelled = false) (A : Nat → UInt8)
    (hA : ∀ g, key.piece * E.info.ps + key.offset ≤ g →
      g < key.piece * E.info.ps + key.offset + length →
      storedByte E m.disk E.info.files g = some (A g)) :
    readFromDisk E m key length = .ok (window A (key.piece * E.info.ps + key.offset) length) := by
  rcases Nat.eq_zero_or_pos length with rfl | hpos
  · exact readFromDisk_zero
  · refine (readFromDisk_eq_ok hsum hgo hlen hpos).mpr ⟨hc, by simp [window], fun i hi => ?_⟩
    rw [hA _ (by omega) (by omega)]
    simp [window, hi]

end

end Read

end P2P
