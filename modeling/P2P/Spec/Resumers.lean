import P2P.ForStd.Tasks
import P2P.Native.Resumers

/-!
# One resumer for a piece

The flag belongs to an object and the resumer to a number.
-/

namespace P2P

open ResumeStep List

def ResumeTask.isCoroutine : ResumeTask → Bool
  | .ensure _ => false
  | _ => true

def ResumeTask.object? : ResumeTask → Option Nat
  | .ensure o => some o
  | .resumer => none
  | .ending o => some o

namespace ResumeRun

def coroutines (r : ResumeRun) : Nat := r.tasks.countP (·.isCoroutine)

def Guarded (r : ResumeRun) : Prop :=
  ∀ o, r.entry = some o → (∀ t ∈ r.tasks, ∀ o' ∈ t.object?, o' = o) ∧
    ∃ b, r.active[o]? = some b ∧ r.coroutines = b.toNat

/-- A piece is not started while something is left of its last start. -/
def Rested (r : ResumeRun) (st : ResumeStep) : Prop := st = .start → r.tasks = []

instance Rested.decidable (r : ResumeRun) (st : ResumeStep) : Decidable (r.Rested st) :=
  inferInstanceAs (Decidable (_ → _))

variable {r r' : ResumeRun}

theorem Guarded.step {st : ResumeStep} (hok : r.Rested st) (hstep : st.step r = some r')
    (h : r.Guarded) : r'.Guarded := by
  cases st with
  | start =>
    simp only [ResumeStep.step] at hstep
    split at hstep
    · cases hstep
    · cases hstep
      intro o ho
      cases ho
      simp [hok rfl, coroutines]
  | remove =>
    cases hstep
    intro o ho
    cases ho
  | ensure =>
    obtain ⟨o, ho, rfl⟩ := Option.map_eq_some_iff.mp hstep
    intro o' ho'
    cases ho.symm.trans ho'
    obtain ⟨hobjects, hflag⟩ := h o ho
    refine ⟨?_, by simpa [coroutines, ResumeTask.isCoroutine] using hflag⟩
    simp only [mem_append, mem_singleton]
    grind [ResumeTask.object?]
  | testAndSet i =>
    simp only [ResumeStep.step] at hstep
    split at hstep
    · next o hi =>
      have hcount : (r.tasks.eraseIdx i).countP (·.isCoroutine) + 0 = r.coroutines :=
        countP_eraseIdx_add hi _
      split at hstep
      all_goals
        cases hstep
        intro o' ho'
        obtain ⟨hobjects, b, hb, hflag⟩ := h o' ho'
        obtain rfl : o = o' := hobjects _ (mem_of_getElem? hi) o rfl
      · -- there is a coroutine, and the call is over
        exact ⟨fun t ht => hobjects t (mem_of_mem_eraseIdx ht), b, hb, hcount.trans hflag⟩
      · next hfree =>
        obtain rfl : b = false := by simpa [hb] using hfree
        refine ⟨?_, true, List.getElem?_set_self (List.getElem?_eq_some_iff.mp hb).1, ?_⟩
        · grind [ResumeTask.object?, List.mem_of_mem_eraseIdx]
        · show countP _ (r.tasks.eraseIdx i ++ [.resumer]) = 1
          rw [List.countP_append, ← Nat.add_zero (List.countP _ (r.tasks.eraseIdx i)),
            hcount, hflag]
          rfl
    · cases hstep
  | finish i =>
    simp only [ResumeStep.step] at hstep
    split at hstep
    · next hi =>
      have hcount : (r.tasks.eraseIdx i).countP (·.isCoroutine) + 1 = r.coroutines :=
        countP_eraseIdx_add hi _
      cases hstep
      intro o ho
      obtain ⟨hobjects, b, hb, hflag⟩ := h o ho
      refine ⟨?_, b, hb, ?_⟩
      · grind [ResumeTask.object?, mem_of_mem_eraseIdx]
      · show countP _ (r.tasks.eraseIdx i ++ (r.entry.map ResumeTask.ending).toList) = b.toNat
        rw [show r.entry = some o from ho, countP_append, ← hflag, ← hcount]
        rfl
    · cases hstep
  | reset i =>
    simp only [ResumeStep.step] at hstep
    split at hstep
    · next o hi =>
      have hcount : (r.tasks.eraseIdx i).countP (·.isCoroutine) + 1 = r.coroutines :=
        countP_eraseIdx_add hi _
      cases hstep
      intro o' ho'
      obtain ⟨hobjects, b, hb, hflag⟩ := h o' ho'
      obtain rfl : o = o' := hobjects _ (mem_of_getElem? hi) o rfl
      refine ⟨fun t ht => hobjects t (List.mem_of_mem_eraseIdx ht), false,
        List.getElem?_set_self (List.getElem?_eq_some_iff.mp hb).1, ?_⟩
      have hle := Bool.toNat_le b
      show (r.tasks.eraseIdx i).countP _ = 0
      omega
    · cases hstep

/-- **One resumer for a piece**, and the flag says whether there is one, as long as a piece is not
    started while something is left of its last start. -/
theorem one_resumer (steps : List ResumeStep) (r : ResumeRun)
    (hrun : runSteps step steps {} = some r)
    (hok : StepsMeet step Rested steps {}) (o : Nat) (ho : r.entry = some o) :
    r.coroutines ≤ 1 ∧ (r.active[o]? = some true ↔ 0 < r.coroutines) := by
  have h : r.Guarded :=
    runSteps_invariant (fun _ _ _ hok hstep => Guarded.step hok hstep) hok hrun nofun
  obtain ⟨-, b, hb, hflag⟩ := h o ho
  rw [hflag, hb]
  cases b <;> simp

def restarted : List ResumeStep :=
  [.start, .ensure, .testAndSet 0, .remove, .finish 0, .start, .ensure, .testAndSet 0]

theorem one_resumer_restarted :
    ((runSteps step restarted {}).get (by decide)).coroutines ≤ 1 :=
  (one_resumer restarted _ (Option.some_get _).symm (by decide) 1 (by decide)).1

/-- The resumer waits while the piece is removed and started again, and a second one is spawned for
    the new object. -/
theorem two_resumers :
    ((runSteps step [.start, .ensure, .testAndSet 0, .remove, .start] {}).map fun r =>
        (r.entry, r.active[1]?, r.coroutines)) = some (some 1, some false, 1) ∧
      ((runSteps step [.start, .ensure, .testAndSet 0, .remove, .start, .ensure,
        .testAndSet 1] {}).map (·.coroutines)) = some 2 := by
  decide

end ResumeRun

end P2P
