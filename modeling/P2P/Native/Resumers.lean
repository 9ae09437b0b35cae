import P2P.ForStd.Run

/-!
# The resumers of a piece (`PieceManager.cpp`)

`ensure_resume_piece_download` starts a coroutine unless the flag of the piece says that there is
one.
-/

namespace P2P

inductive ResumeTask where
  | ensure (object : Nat)
  | resumer
  | ending (object : Nat)
  deriving DecidableEq, Repr

structure ResumeRun where
  entry : Option Nat := none
  active : List Bool := []
  tasks : List ResumeTask := []
  deriving DecidableEq, Repr

inductive ResumeStep where
  | start
  | remove
  | ensure
  | testAndSet (i : Nat)
  | finish (i : Nat)
  | reset (i : Nat)
  deriving DecidableEq, Repr

def ResumeStep.step (r : ResumeRun) : ResumeStep → Option ResumeRun
  | .start =>
    if r.entry.isSome then none
    else some { r with entry := some r.active.length, active := r.active ++ [false] }
  | .remove => some { r with entry := none }
  | .ensure => r.entry.map fun o => { r with tasks := r.tasks ++ [.ensure o] }
  | .testAndSet i =>
    match r.tasks[i]? with
    | some (.ensure o) =>
      if r.active[o]? = some true then some { r with tasks := r.tasks.eraseIdx i }
      else some { r with active := r.active.set o true, tasks := r.tasks.eraseIdx i ++ [.resumer] }
    | _ => none
  | .finish i =>
    match r.tasks[i]? with
    | some .resumer =>
      some { r with tasks := r.tasks.eraseIdx i ++ (r.entry.map ResumeTask.ending).toList }
    | _ => none
  | .reset i =>
    match r.tasks[i]? with
    | some (.ending o) =>
      some { r with active := r.active.set o false, tasks := r.tasks.eraseIdx i }
    | _ => none

end P2P
