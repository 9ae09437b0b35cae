import P2P.Native.ResumeFile
import P2P.Spec.PieceMap

/-!
# Saving the resume file

Every step of a save but one changes the temporary file at most; the other one renames it and ends
the save.
-/

namespace P2P

open SaveStep List Function FileManager

def SavePoint.isReturned : SavePoint → Bool
  | .returned _ => true
  | _ => false

namespace SaveRun

variable (E : Env) (infoHash data : Bytes) (disk : Nat → Option Bytes)

/-- The content of the temporary file when some bytes have been written over what was there. -/
def tempContent (written : Nat) : Bytes :=
  ((disk (E.tempFile infoHash)).getD []).overwrite 0 0 (data.take written)

def Content (s : SaveRun) : SavePoint → Prop
  | .entered | .directoryReady => s.disk (E.tempFile infoHash) = disk (E.tempFile infoHash)
  | .tempReady => s.disk (E.tempFile infoHash) = some (tempContent E infoHash data disk 0)
  | .writing n | .flushing n | .flushed n | .written n =>
    n ≤ data.length ∧ s.disk (E.tempFile infoHash) = some (tempContent E infoHash data disk n)
  | .returned n =>
    n ≤ data.length ∧ s.disk (E.resumeFile infoHash) = some (tempContent E infoHash data disk n)
  | .failed | .thrown => True

structure Saving (s : SaveRun) : Prop where
  resume : s.point.isReturned = false →
    s.disk (E.resumeFile infoHash) = disk (E.resumeFile infoHash)
  other : ∀ file, file ≠ E.tempFile infoHash → file ≠ E.resumeFile infoHash →
    s.disk file = disk file
  content : s.Content E infoHash data disk s.point

variable {E infoHash data disk} {s s' : SaveRun}

theorem saving_start : Saving E infoHash data disk { disk := disk } :=
  ⟨fun _ => rfl, fun _ _ _ => rfl, rfl⟩

theorem tempContent_add {written : Nat} (h : written ≤ data.length) (count : Nat) :
    (tempContent E infoHash data disk written).overwrite 0 written (data.slice written count) =
      tempContent E infoHash data disk (written + count) :=
  overwrite_portion 0 _ h count

section Step

variable (hne : E.tempFile infoHash ≠ E.resumeFile infoHash) {point point' : SavePoint}

theorem Saving.at_point (hs : Saving E infoHash data disk s) (hpoint : s.point = point) :
    s.Content E infoHash data disk point :=
  hpoint ▸ hs.content

theorem Saving.move (hs : Saving E infoHash data disk s) (hpoint : s.point = point)
    (hreturned : point.isReturned = false)
    (hnext : s.Content E infoHash data disk point → s.Content E infoHash data disk point') :
    Saving E infoHash data disk { s with point := point' } :=
  ⟨fun _ => hs.resume (hpoint ▸ hreturned), hs.other,
    by cases point' <;> exact hnext (hs.at_point hpoint)⟩

include hne

section

variable (hs : Saving E infoHash data disk s)

include hs

theorem Saving.touch (hpoint : s.point = point) (hreturned : point.isReturned = false)
    {content : Option Bytes}
    (hcontent : Content E infoHash data disk
      ⟨update s.disk (E.tempFile infoHash) content, point'⟩ point') :
    Saving E infoHash data disk ⟨update s.disk (E.tempFile infoHash) content, point'⟩ where
  resume _ := by
    dsimp only
    rw [update_of_ne hne.symm]
    exact hs.resume (hpoint ▸ hreturned)
  other file htemp hresume := by
    dsimp only
    rw [update_of_ne htemp]
    exact hs.other file htemp hresume
  content := hcontent

theorem Saving.createTemp {ok : Bool} (h : step E infoHash data s (.createTemp ok) = some s') :
    Saving E infoHash data disk s' := by
  simp only [step] at h
  split at h
  · next hpoint =>
    have hold : s.disk (E.tempFile infoHash) = disk (E.tempFile infoHash) := hs.at_point hpoint
    split at h
    · next hsome =>
      cases h
      obtain ⟨old, hfile⟩ := Option.isSome_iff_exists.mp hsome
      refine hs.move hpoint rfl fun _ => ?_
      show s.disk _ = some (tempContent E infoHash data disk 0)
      rw [hfile, tempContent, ← hold, hfile]
      rfl
    · next hnone =>
      rw [Option.not_isSome_iff_eq_none] at hnone
      split at h
      · cases h
        refine hs.touch hne hpoint rfl ?_
        show update s.disk _ _ _ = some (tempContent E infoHash data disk 0)
        rw [update_self, tempContent, ← hold, hnone]
        rfl
      · cases h
        exact hs.move hpoint rfl fun _ => trivial
  · cases h

theorem Saving.bytesReachFile {written count : Nat} {next : Nat → SavePoint}
    (hpoint : s.point = next written) (hreturned : (next written).isReturned = false)
    (hnext : ∀ (t : SaveRun) (n : Nat), t.Content E infoHash data disk (next n) ↔
      n ≤ data.length ∧
        t.disk (E.tempFile infoHash) = some (tempContent E infoHash data disk n))
    (h : s.bytesReachFile E infoHash data written count next = some s') :
    Saving E infoHash data disk s' := by
  obtain ⟨hwritten, htemp⟩ := (hnext s written).mp (hs.at_point hpoint)
  unfold SaveRun.bytesReachFile at h
  rw [htemp] at h
  dsimp only at h
  split at h
  · next hle =>
    cases h
    refine hs.touch hne hpoint hreturned ((hnext _ _).mpr ⟨hle, ?_⟩)
    rw [tempContent_add hwritten]
    exact update_self ..
  · cases h

theorem Saving.rename {ok : Bool} (h : step E infoHash data s (.rename ok) = some s') :
    Saving E infoHash data disk s' := by
  simp only [step] at h
  split at h
  · next written hpoint =>
    split at h
    · next content hdisk =>
      cases h
      obtain ⟨hle, htemp⟩ := hs.at_point hpoint
      refine ⟨nofun, fun file hfile hfile' => ?_, hle, ?_⟩
      · dsimp only
        rw [update_of_ne hfile, update_of_ne hfile']
        exact hs.other file hfile hfile'
      · dsimp only
        rw [update_of_ne hne.symm, update_self, ← htemp, hdisk]
    · cases h
      exact hs.move hpoint rfl fun _ => trivial
  · cases h

theorem step_saving {a : SaveStep} (h : step E infoHash data s a = some s') :
    Saving E infoHash data disk s' := by
  cases a with simp only [step] at h
  | createTemp ok => exact hs.createTemp hne h
  | rename ok => exact hs.rename hne h
  | createDirectories ok | writeDone ok =>
    split at h
    · next hpoint =>
      cases h
      cases ok with
      | true => exact hs.move hpoint rfl id
      | false => exact hs.move hpoint rfl fun _ => trivial
    · cases h
  | openTemp ok =>
    split at h
    · next hpoint =>
      split at h
      · cases h
        exact hs.move hpoint rfl fun hcontent => ⟨Nat.zero_le _, hcontent⟩
      · cases h
        exact hs.move hpoint rfl fun _ => trivial
    · cases h
  | bytesReachFile count =>
    split at h
    · next hpoint => exact hs.bytesReachFile hne hpoint rfl (fun _ _ => Iff.rfl) h
    · next hpoint => exact hs.bytesReachFile hne hpoint rfl (fun _ _ => Iff.rfl) h
    · cases h
  | flushDone =>
    split at h
    · next hpoint =>
      cases h
      exact hs.move hpoint rfl id
    · cases h
  | checkCancelled cancelled =>
    split at h
    · next hpoint =>
      cases h
      cases cancelled with
      | true => exact hs.move hpoint rfl fun _ => trivial
      | false => exact hs.move hpoint rfl id
    · cases h
  | removeTemp ok =>
    split at h
    · next hpoint =>
      cases h
      cases ok with
      | true => exact hs.touch hne hpoint rfl trivial
      | false => exact hs.move hpoint rfl fun _ => trivial
    · cases h

end

theorem run_saving {steps : List SaveStep}
    (hrun : run E infoHash data steps { disk := disk } = some s) : Saving E infoHash data disk s :=
  runSteps_preserves (fun _ _ _ hstep hs => step_saving hne hs hstep) hrun saving_start

end Step

end SaveRun

/-- How many bytes a step brings to the temporary file. -/
def SaveStep.count : SaveStep → Nat
  | .bytesReachFile count => count
  | _ => 0

/-- How many bytes the steps of a save bring to the temporary file. -/
def SaveStep.counts (steps : List SaveStep) : Nat := (steps.map count).sum

/-- How many bytes have reached the file, while the save has not failed. -/
def SavePoint.reached : SavePoint → Option Nat
  | .entered | .directoryReady | .tempReady => some 0
  | .writing n | .flushing n | .flushed n | .written n | .returned n => some n
  | .failed | .thrown => none

namespace SaveRun

variable {E : Env} {infoHash data : Bytes} {s s' : SaveRun} {n : Nat}

theorem reached_bytesReachFile {written count : Nat} {next : Nat → SavePoint}
    (h : s.bytesReachFile E infoHash data written count next = some s') :
    s'.point = next (written + count) := by
  unfold bytesReachFile at h
  split at h
  · cases h
  · split at h <;> cases h
    rfl

theorem reached_step {a : SaveStep} (h : step E infoHash data s a = some s')
    (hn : s'.point.reached = some n) :
    ∃ before, s.point.reached = some before ∧ n = before + a.count := by
  cases a with simp only [step] at h
  | bytesReachFile count =>
    split at h
    · next written hpoint =>
      rw [reached_bytesReachFile h] at hn
      cases hn
      exact ⟨written, by rw [hpoint]; rfl, rfl⟩
    · next written hpoint =>
      rw [reached_bytesReachFile h] at hn
      cases hn
      exact ⟨written, by rw [hpoint]; rfl, rfl⟩
    · cases h
  | _ =>
    -- no other step brings bytes or leaves the failure
    repeat' split at h
    all_goals cases h
    all_goals simp_all [SavePoint.reached, SaveStep.count]

theorem run_reached {disk : Nat → Option Bytes} {steps : List SaveStep}
    (hrun : run E infoHash data steps { disk := disk } = some s) (hn : s.point.reached = some n) :
    n = counts steps := by
  refine runSteps_history_preserves
    (I := fun steps s => ∀ n, s.point.reached = some n → n = counts steps) ?_ hrun ?_ n hn
  · intro steps s a s' hstep hbefore n hn
    obtain ⟨before, hpoint, rfl⟩ := reached_step hstep hn
    simp [hbefore before hpoint, counts]
  · rintro n hn
    cases hn
    rfl

end SaveRun

/-- A save in which nothing fails but perhaps `flush`, with the bytes that reach the file. -/
def savedWhole (count : Nat) : List SaveStep :=
  [.createDirectories true, .createTemp true, .openTemp true, .bytesReachFile count,
    .writeDone true, .flushDone, .checkCancelled false, .rename true]

theorem SaveRun.run_savedWhole (E : Env) (infoHash : Bytes) {data : Bytes}
    (disk : Nat → Option Bytes) {count : Nat} (h : count ≤ data.length) :
    ∃ s, run E infoHash data (savedWhole count) { disk := disk } = some s ∧
      s.point = .returned count := by
  cases hold : disk (E.tempFile infoHash) <;>
    simp [run, runSteps, savedWhole, step, bytesReachFile, hold, h]

section Load

variable {E : Env} {infoHash content : Bytes} {m : FileManager}

theorem loadResumeData_eq (hcancelled : m.ioCancelled = false)
    (hdisk : m.disk (E.resumeFile infoHash) = some content) (hne : content ≠ []) :
    m.loadResumeData E infoHash = .ok (some (content.take (u32 content.length))) := by
  have hlen : content.length ≠ 0 := mt length_eq_zero_iff.mp hne
  have hread : m.disk (E.resolve (E.getResumeFilePath infoHash)) = some content := hdisk
  have hslice : content.slice 0 (u32 content.length) = content.take (u32 content.length) := rfl
  have htake : (content.take (u32 content.length)).length = u32 content.length :=
    length_take_of_le (Nat.mod_le _ _)
  rw [loadResumeData, hdisk]
  dsimp only
  rw [if_neg hlen, asyncReadFromFile, hcancelled, hread, if_neg Bool.false_ne_true]
  dsimp only
  rw [if_neg (by simp [u64]), if_pos rfl, if_neg (by decide), hslice, if_pos htake]
  rfl

theorem loadResumeData_iff {data : Bytes} (hdata : data ≠ []) (hcancelled : m.ioCancelled = false)
    (hdisk : m.disk (E.resumeFile infoHash) = some content) :
    m.loadResumeData E infoHash = .ok (some data) ↔ content.take (u32 content.length) = data := by
  by_cases hne : content = []
  · simp [loadResumeData, hdisk, hne, hdata.symm]
  · rw [loadResumeData_eq hcancelled hdisk hne, Except.ok.injEq, Option.some.injEq]

/-- Bytes written over others are read back as they are exactly if the length of the file, in 32
    bits, is theirs, and what has not been written was there already. -/
theorem take_overwritten_iff {data leftover : Bytes} {written : Nat} (h : written ≤ data.length) :
    (leftover.overwrite 0 0 (data.take written)).take
        (u32 (leftover.overwrite 0 0 (data.take written)).length) = data ↔
      max written leftover.length % 2 ^ 32 = data.length ∧
        (leftover.take data.length).drop written = data.drop written := by
  have hlen : (data.take written).length = written := length_take_of_le h
  have hcontent : (data.take written ++ leftover.drop written).length =
      max written leftover.length := by
    rw [length_append, hlen, length_drop]
    omega
  rw [overwrite_start, hlen, hcontent, u32]
  -- the bytes up to the length of the data
  have htake : (data.take written ++ leftover.drop written).take data.length =
      data.take written ++ (leftover.take data.length).drop written := by
    rw [take_append, take_of_length_le (by omega), hlen, drop_take]
  constructor
  · intro heq
    have hsize := congrArg List.length heq
    rw [length_take_of_le (hcontent ▸ Nat.mod_le _ _)] at hsize
    refine ⟨hsize, ?_⟩
    rw [hsize, htake] at heq
    have hdrop := congrArg (drop written) heq
    rwa [drop_left' hlen] at hdrop
  · rintro ⟨hsize, hrest⟩
    rw [hsize, htake, hrest, take_append_drop]

end Load

/-- **Saving the resume file.** Before the renaming, when the save fails and after a crash, the
    resume file is what it was. After a save that returns the data are loaded exactly if the number
    of bytes in the file, of which a longer leftover makes some, is theirs in 32 bits, and bytes
    that did not reach the file were in the leftover. -/
theorem resume_file_saved {E : Env} {infoHash : Bytes}
    (hne : E.tempFile infoHash ≠ E.resumeFile infoHash) (disk : Nat → Option Bytes)
    {data : Bytes} {steps : List SaveStep} {s : SaveRun}
    (hrun : run E infoHash data steps { disk := disk } = some s) :
    (s.point.isReturned = false →
      s.disk (E.resumeFile infoHash) = disk (E.resumeFile infoHash)) ∧
    (s.point.isReturned = true → data ≠ [] →
      ∀ m : FileManager, m.disk = s.disk → m.ioCancelled = false →
        let leftover := (disk (E.tempFile infoHash)).getD []
        (m.loadResumeData E infoHash = .ok (some data) ↔
          max (counts steps) leftover.length % 2 ^ 32 = data.length ∧
            (leftover.take data.length).drop (counts steps) = data.drop (counts steps))) := by
  have hs := SaveRun.run_saving hne hrun
  refine ⟨hs.resume, ?_⟩
  intro hreturned hdata m hdisk hcancelled
  have hcontent := hs.content
  cases hpoint : s.point with simp [SavePoint.isReturned, hpoint] at hreturned hcontent
  | returned written =>
    have hwritten : written = counts steps := SaveRun.run_reached hrun (by rw [hpoint]; rfl)
    obtain ⟨hle, hresume⟩ := hcontent
    rw [← hdisk] at hresume
    rw [loadResumeData_iff hdata hcancelled hresume, SaveRun.tempContent, take_overwritten_iff hle,
      hwritten]

/-- A torrent whose paths denote different files when their lengths differ. -/
def saveEnv : Env :=
  { twoByteEnv with resolve := fun path => path.native.length }

theorem resume_file_saved_shorter :
    let disk : Nat → Option Bytes := fun _ => some [1, 2]
    ∃ s, run saveEnv [7] [9, 8, 7] (savedWhole 3) { disk := disk } = some s ∧
      loadResumeData saveEnv [7] { disk := s.disk } = .ok (some [9, 8, 7]) := by
  intro disk
  obtain ⟨s, hs, hpoint⟩ :=
    SaveRun.run_savedWhole saveEnv [7] disk (show 3 ≤ ([9, 8, 7] : Bytes).length by decide)
  refine ⟨s, hs, ?_⟩
  exact ((resume_file_saved (by decide) disk hs).2 (by rw [hpoint]; rfl) (by decide) _ rfl rfl).mpr
    (by decide)

/-- A save of three bytes is interrupted before the renaming, and behind the one byte of the next
    save two are still there. And a byte that `flush` loses without a sign is not loaded. -/
theorem resume_file_stale_tail :
    (((run saveEnv [7] [1, 2, 3] ((savedWhole 3).take 5) { disk := fun _ => none }).bind
        fun s => run saveEnv [7] [9] (savedWhole 1) { disk := s.disk }).map fun s =>
      (s.point, (loadResumeData saveEnv [7] { disk := s.disk }).toOption)) =
        some (.returned 1, some (some [9, 2, 3])) ∧
    ((run saveEnv [7] [9] (savedWhole 0) { disk := fun _ => none }).map fun s =>
      (s.point, (loadResumeData saveEnv [7] { disk := s.disk }).toOption)) =
        some (.returned 0, some none) := by
  decide +kernel

end P2P
