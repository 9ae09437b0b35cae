import P2P.Native.FileManager
import P2P.Native.Hex

/-!
# The resume file (`FileManager.cpp`)

`save_resume_data` writes the resume data to a temporary file next to the resume file and renames
it.
-/

namespace P2P

open Function

namespace Env

variable (E : Env) (infoHash : Bytes)

def getResumeFilePath : PosixPath :=
  let name : PosixPath := ⟨.ascii "." ++ bytesToHex infoHash ++ .ascii ".resume"⟩
  if E.info.files.length > 1 then (E.savePath.append ⟨E.info.name⟩).append name
  else E.savePath.append name

def tempPath : PosixPath := ⟨(E.getResumeFilePath infoHash).native ++ .ascii ".tmp"⟩

def resumeFile : Nat := E.resolve (E.getResumeFilePath infoHash)

def tempFile : Nat := E.resolve (E.tempPath infoHash)

end Env

/-- Where `save_resume_data` is. The number counts the bytes that have reached the file. -/
inductive SavePoint where
  | entered
  | directoryReady
  | tempReady
  | writing (written : Nat)
  | flushing (written : Nat)
  | flushed (written : Nat)
  | written (written : Nat)
  | returned (written : Nat)
  | failed
  | thrown
  deriving DecidableEq, Repr

structure SaveRun where
  disk : Nat → Option Bytes
  point : SavePoint := .entered

inductive SaveStep where
  | createDirectories (ok : Bool)
  | createTemp (ok : Bool)
  /-- what `async_write_to_file` does before it writes: the check of the flag, the parent
      directories, the opening of the file and the seek -/
  | openTemp (ok : Bool)
  | bytesReachFile (count : Nat)
  | writeDone (ok : Bool)
  | flushDone
  | checkCancelled (cancelled : Bool)
  | rename (ok : Bool)
  | removeTemp (ok : Bool)
  deriving DecidableEq, Repr

namespace SaveRun

variable (E : Env) (infoHash data : Bytes)

def bytesReachFile (s : SaveRun) (written count : Nat) (point : Nat → SavePoint) :
    Option SaveRun :=
  match s.disk (E.tempFile infoHash) with
  | none => none
  | some content =>
    if written + count ≤ data.length then
      some {
        disk := update s.disk (E.tempFile infoHash)
          (some (content.overwrite 0 written (data.slice written count)))
        point := point (written + count) }
    else none

end SaveRun

namespace SaveStep

variable (E : Env) (infoHash data : Bytes)

def step (s : SaveRun) : SaveStep → Option SaveRun
  | .createDirectories ok =>
    if s.point = .entered then
      some { s with point := if ok then .directoryReady else .failed }
    else none
  | .createTemp ok =>
    if s.point = .directoryReady then
      -- a file that is there is not truncated
      if (s.disk (E.tempFile infoHash)).isSome then some { s with point := .tempReady }
      else if ok then
        some {
          disk := update s.disk (E.tempFile infoHash) (some [])
          point := .tempReady }
      else some { s with point := .failed }
    else none
  | .openTemp ok =>
    if s.point = .tempReady then
      if ok ∧ (s.disk (E.tempFile infoHash)).isSome then some { s with point := .writing 0 }
      else some { s with point := .failed }
    else none
  | .bytesReachFile count =>
    match s.point with
    | .writing written => s.bytesReachFile E infoHash data written count .writing
    | .flushing written => s.bytesReachFile E infoHash data written count .flushing
    | _ => none
  | .writeDone ok =>
    match s.point with
    | .writing written => some { s with point := if ok then .flushing written else .failed }
    | _ => none
  | .flushDone =>
    match s.point with
    | .flushing written => some { s with point := .flushed written }
    | _ => none
  | .checkCancelled cancelled =>
    match s.point with
    | .flushed written => some { s with point := if cancelled then .failed else .written written }
    | _ => none
  | .rename ok =>
    match s.point with
    | .written written =>
      match ok, s.disk (E.tempFile infoHash) with
      | true, some content =>
        some {
          disk := update (update s.disk (E.resumeFile infoHash) (some content))
            (E.tempFile infoHash) none
          point := .returned written }
      | _, _ => some { s with point := .failed }
    | _ => none
  | .removeTemp ok =>
    if s.point = .failed then
      some {
        disk := if ok then update s.disk (E.tempFile infoHash) none else s.disk
        point := .thrown }
    else none

abbrev run : List SaveStep → SaveRun → Option SaveRun := runSteps (step E infoHash data)

end SaveStep

def FileManager.loadResumeData (E : Env) (infoHash : Bytes) (m : FileManager) :
    Except ReadError (Option Bytes) :=
  match m.disk (E.resumeFile infoHash) with
  | none => .ok none
  | some content =>
    if content.length = 0 then .ok none
    else (m.asyncReadFromFile E (E.getResumeFilePath infoHash) 0 0).map some

end P2P
