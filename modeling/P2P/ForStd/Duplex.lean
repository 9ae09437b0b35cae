import Mathlib.Data.List.Infix
import P2P.ForStd.Coroutine
import P2P.ForStd.Run

/-!
# Two coroutines on one connection

What one coroutine writes is on its way to the other until it is read there, in chunks of any size.
-/

namespace P2P

open List

/-- Two coroutines and what is on its way between them. -/
structure Duplex (β α γ : Type) where
  left : Coroutine β α
  right : Coroutine β γ
  toRight : List β := []
  toLeft : List β := []

/-- An operation of one side. A read takes the first symbols of what has arrived. -/
inductive Operation where
  | write
  | read (n : Nat)
  deriving DecidableEq, Repr

inductive DuplexStep where
  | left (op : Operation)
  | right (op : Operation)
  deriving DecidableEq, Repr

namespace Duplex

variable {β α γ : Type}

def swap (d : Duplex β α γ) : Duplex β γ α := ⟨d.right, d.left, d.toLeft, d.toRight⟩

def stepLeft (cap : Nat) (d : Duplex β α γ) : Operation → Option (Duplex β α γ)
  | .write =>
    match d.left with
    | .write data k => some { d with left := k true, toRight := d.toRight ++ data }
    | _ => none
  | .read n =>
    match d.left with
    | .read k =>
      if 0 < n ∧ n ≤ cap ∧ n ≤ d.toLeft.length then
        some { d with left := k (.chunk (d.toLeft.take n)), toLeft := d.toLeft.drop n }
      else none
    | _ => none

/-- A step of either side; reads take at most `cap` symbols. -/
def step (cap : Nat) (d : Duplex β α γ) : DuplexStep → Option (Duplex β α γ)
  | .left op => d.stepLeft cap op
  | .right op => (d.swap.stepLeft cap op).map swap

/-- Every run ends, both sides have results for which `post` holds, and nothing is on its way. -/
def Completes (cap : Nat) (d : Duplex β α γ) (post : α → γ → Prop) : Prop :=
  ∃ N, ∀ steps d', runSteps (step cap) steps d = some d' →
    steps.length ≤ N ∧
      ((∀ s, step cap d' s = none) →
        ∃ a b, d' = ⟨.done a, .done b, [], []⟩ ∧ post a b)

theorem Completes.mono {cap : Nat} {d : Duplex β α γ} {post post' : α → γ → Prop}
    (h : d.Completes cap post) (himp : ∀ a b, post a b → post' a b) : d.Completes cap post' := by
  obtain ⟨N, hN⟩ := h
  refine ⟨N, fun steps d' hrun => ⟨(hN steps d' hrun).1, fun hstuck => ?_⟩⟩
  obtain ⟨a, b, hd, hpost⟩ := (hN steps d' hrun).2 hstuck
  exact ⟨a, b, hd, himp a b hpost⟩

/-- While the left side does nothing, the right side can go through its input. -/
theorem exists_run_right {cap : Nat} (left : Coroutine β α) (toLeft : List β)
    {c : Coroutine β γ} {b : γ} {cs ws cs' : List (List β)} (h : c.feed cs = some (ws, b, cs'))
    (hsize : ∀ c ∈ cs, 0 < c.length ∧ c.length ≤ cap) :
    ∃ steps toRight toLeft', runSteps (step cap) steps ⟨left, c, cs.flatten, toLeft⟩ =
      some ⟨left, .done b, toRight, toLeft'⟩ := by
  induction c generalizing cs ws toLeft with
  | done a =>
    cases h
    exact ⟨[], _, _, rfl⟩
  | read k ih =>
    cases cs with
    | nil => cases h
    | cons c cs =>
      obtain ⟨hpos, hcap⟩ := hsize c (mem_cons_self ..)
      obtain ⟨steps, toRight, toLeft', hrun⟩ :=
        ih _ toLeft h fun d hd => hsize d (mem_cons_of_mem _ hd)
      refine ⟨.right (.read c.length) :: steps, _, _, .trans ?_ hrun⟩
      simp [runSteps, step, stepLeft, swap, hpos, hcap]
  | write data k ih =>
    obtain ⟨⟨ws, b⟩, hfeed, heq⟩ := Option.map_eq_some_iff.mp h
    cases heq
    obtain ⟨steps, toRight, toLeft', hrun⟩ := ih true _ hfeed hsize
    exact ⟨.right .write :: steps, _, _, hrun⟩
  | connect k ih => cases h

theorem right_done_step {cap : Nat} {d d' : Duplex β α γ} {s : DuplexStep} {b : γ}
    (hright : d.right = .done b) (hstep : step cap d s = some d') : d'.right = .done b := by
  cases s with
  | left op => cases op <;> grind [step, stepLeft]
  | right op => cases op <;> simp [step, stepLeft, swap, hright] at hstep

/-- A result of the right side is one it has at the end of a run. -/
theorem Completes.of_right_done {cap : Nat} {d d' : Duplex β α γ} {post : α → γ → Prop}
    (h : d.Completes cap post) {steps : List DuplexStep} {b : γ}
    (hrun : runSteps (step cap) steps d = some d') (hright : d'.right = .done b) :
    ∃ a, post a b := by
  obtain ⟨N, hN⟩ := h
  -- the run is extended until it is stuck
  induction hk : N + 1 - steps.length generalizing steps d' with
  | zero =>
    have hle := (hN steps d' hrun).1
    omega
  | succ k ih =>
    by_cases hstuck : ∀ s, step cap d' s = none
    · obtain ⟨a, b', rfl, hpost⟩ := (hN steps d' hrun).2 hstuck
      cases hright
      exact ⟨a, hpost⟩
    · obtain ⟨s, hs⟩ := not_forall.mp hstuck
      obtain ⟨d₂, hstep⟩ := Option.ne_none_iff_exists'.mp hs
      have hrun' : runSteps (step cap) (steps ++ [s]) d = some d₂ := by
        rw [runSteps_append, hrun, Option.bind_some, runSteps, hstep]
        rfl
      exact ih hrun' (right_done_step hright hstep) (by simp; omega)

/-- The scripts never have both sides wait: one has all it needs for its next write or its end. -/
def NeverWait (lastL lastR : Nat) (scL scR : Script β) : Prop :=
  ∀ sl ∈ scL.tails, ∀ sr ∈ scR.tails,
    ¬(Script.bound lastL sl < (Script.output sr).length ∧
      Script.bound lastR sr < (Script.output sl).length)

/-- Each side follows its script on what is on its way and what the other's script still writes. -/
structure Meshed (cap lastL lastR : Nat) (postL : α → List β → Script β → Prop)
    (postR : γ → List β → Script β → Prop) (scL scR : Script β) (d : Duplex β α γ) : Prop where
  left : d.left.Follows cap lastL postL (d.toLeft ++ scR.output) scL
  right : d.right.Follows cap lastR postR (d.toRight ++ scL.output) scR
  neverWait : NeverWait lastL lastR scL scR

/-- What the two sides still have to read and to write. -/
def due (scL scR : Script β) (d : Duplex β α γ) : Nat :=
  (d.toLeft ++ scR.output).length + (d.toRight ++ scL.output).length + scL.length + scR.length

theorem NeverWait.swap {lastL lastR : Nat} {scL scR : Script β}
    (h : NeverWait lastL lastR scL scR) : NeverWait lastR lastL scR scL :=
  fun sr hr sl hl hwait => h sl hl sr hr hwait.symm

theorem NeverWait.tail {lastL lastR : Nat} {scL scL' scR : Script β}
    (h : NeverWait lastL lastR scL scR) (hsuf : scL' <:+ scL) : NeverWait lastL lastR scL' scR :=
  fun sl hl => h sl (by
    rw [mem_tails] at hl ⊢
    exact hl.trans hsuf)

section

variable {cap lastL lastR : Nat} {postL : α → List β → Script β → Prop}
  {postR : γ → List β → Script β → Prop} {scL scR : Script β} {d d' : Duplex β α γ}

section

variable (h : Meshed cap lastL lastR postL postR scL scR d)

include h

theorem Meshed.swap : Meshed cap lastR lastL postR postL scR scL d.swap :=
  ⟨h.right, h.left, h.neverWait.swap⟩

theorem Meshed.stepLeft {op : Operation} (hstep : d.stepLeft cap op = some d') :
    ∃ scL', Meshed cap lastL lastR postL postR scL' scR d' ∧ due scL' scR d' < due scL scR d := by
  obtain ⟨left, right, toRight, toLeft⟩ := d
  obtain ⟨hleft, hright, hwait⟩ := h
  cases op with
  | write =>
    cases left <;> simp only [Duplex.stepLeft, Option.some.injEq, reduceCtorEq] at hstep
    obtain ⟨r, scL', rfl, hk⟩ := hleft
    subst hstep
    refine ⟨scL', ⟨hk, ?_, hwait.tail (suffix_cons ..)⟩, ?_⟩
    · simpa using hright
    · simp only [due, Script.output_cons, append_assoc, length_cons]
      omega
  | read n =>
    cases left <;> simp only [Duplex.stepLeft, reduceCtorEq] at hstep
    rename_i k
    split at hstep
    · rename_i hn
      simp only [Option.some.injEq] at hstep
      subst hstep
      have hk := hleft.2 n hn.1 hn.2.1 (by simp; omega)
      rw [take_append_of_le_length hn.2.2, drop_append_of_le_length hn.2.2] at hk
      refine ⟨scL, ⟨hk, hright, hwait⟩, ?_⟩
      simp only [due, length_append, length_drop]
      omega
    · cases hstep

theorem Meshed.step {s : DuplexStep} (hstep : d.step cap s = some d') :
    ∃ scL' scR', Meshed cap lastL lastR postL postR scL' scR' d' ∧
      due scL' scR' d' < due scL scR d := by
  cases s with
  | left op =>
    obtain ⟨scL', h', hlt⟩ := h.stepLeft hstep
    exact ⟨scL', scR, h', hlt⟩
  | right op =>
    simp only [Duplex.step, Option.map_eq_some_iff] at hstep
    obtain ⟨e, he, rfl⟩ := hstep
    obtain ⟨scR', h', hlt⟩ := h.swap.stepLeft he
    refine ⟨scL, scR', h'.swap, ?_⟩
    simp only [due, Duplex.swap] at hlt ⊢
    omega

theorem Meshed.left_stuck (hcap : 0 < cap) (hstuck : ∀ op, d.stepLeft cap op = none) :
    (∃ a, d.left = .done a) ∨ (d.toLeft = [] ∧ scL.bound lastL < scR.output.length) := by
  obtain ⟨left, right, toRight, toLeft⟩ := d
  have hleft := h.left
  cases left with
  | done a => exact .inl ⟨a, rfl⟩
  | read k =>
    have hnil : toLeft = [] := by
      have hone := hstuck (.read 1)
      simp only [Duplex.stepLeft, ite_eq_right_iff, reduceCtorEq, imp_false] at hone
      rw [← length_eq_zero_iff]
      omega
    subst hnil
    exact .inr ⟨rfl, hleft.1⟩
  | write data k => simpa [Duplex.stepLeft] using hstuck .write
  | connect k => exact hleft.elim

/-- **As long as one side has not ended, a step is possible.** -/
theorem Meshed.progress (hcap : 0 < cap) (hL : ∀ a inp sc, postL a inp sc → inp = [] ∧ sc = [])
    (hR : ∀ b inp sc, postR b inp sc → inp = [] ∧ sc = []) (hstuck : ∀ s, d.step cap s = none) :
    ∃ a b, d = ⟨.done a, .done b, [], []⟩ ∧ postL a [] [] ∧ postR b [] [] := by
  have hstuckR : ∀ op, d.swap.stepLeft cap op = none := fun op => by
    simpa [Duplex.step] using hstuck (.right op)
  obtain ⟨left, right, toRight, toLeft⟩ := d
  obtain hl | ⟨hl, hlw⟩ := h.left_stuck hcap fun op => hstuck (.left op)
  · obtain ⟨a, rfl⟩ := hl
    have hpost : postL a (toLeft ++ scR.output) scL := h.left
    obtain ⟨hnil, rfl⟩ := hL _ _ _ hpost
    obtain ⟨rfl, hout⟩ := append_eq_nil_iff.mp hnil
    -- nothing is left to be read on the right either, so that side has ended
    obtain hr | ⟨-, hrw⟩ := h.swap.left_stuck hcap hstuckR
    · obtain ⟨b, rfl⟩ : ∃ b, right = .done b := hr
      have hpostR : postR b (toRight ++ Script.output []) scR := h.right
      obtain ⟨hnilR, rfl⟩ := hR _ _ _ hpostR
      obtain rfl : toRight = [] := by simpa using hnilR
      exact ⟨a, b, rfl, by simpa using hpost, by simpa using hpostR⟩
    · simp at hrw
  · obtain hr | ⟨-, hrw⟩ := h.swap.left_stuck hcap hstuckR
    · obtain ⟨b, rfl⟩ : ∃ b, right = .done b := hr
      have hpostR : postR b (toRight ++ scL.output) scR := h.right
      obtain ⟨-, rfl⟩ := hR _ _ _ hpostR
      simp at hlw
    · exact absurd ⟨hlw, hrw⟩ (h.neverWait scL (by simp) scR (by simp))

theorem Meshed.run {steps : List DuplexStep} (hrun : runSteps (Duplex.step cap) steps d = some d') :
    ∃ scL' scR', Meshed cap lastL lastR postL postR scL' scR' d' ∧
      due scL' scR' d' + steps.length ≤ due scL scR d := by
  induction steps generalizing d scL scR with
  | nil =>
    simp only [runSteps, Option.some.injEq] at hrun
    subst hrun
    exact ⟨scL, scR, h, by simp⟩
  | cons s steps ih =>
    simp only [runSteps, Option.bind_eq_some_iff] at hrun
    obtain ⟨e, hs, hrun⟩ := hrun
    obtain ⟨scL₁, scR₁, h₁, hlt⟩ := h.step hs
    obtain ⟨scL', scR', h', hle⟩ := ih h₁ hrun
    exact ⟨scL', scR', h', by simp only [length_cons]; omega⟩

theorem Meshed.completes (hcap : 0 < cap) (hL : ∀ a inp sc, postL a inp sc → inp = [] ∧ sc = [])
    (hR : ∀ b inp sc, postR b inp sc → inp = [] ∧ sc = []) :
    d.Completes cap fun a b => postL a [] [] ∧ postR b [] [] := by
  refine ⟨due scL scR d, fun steps d' hrun => ?_⟩
  obtain ⟨scL', scR', h', hle⟩ := h.run hrun
  refine ⟨by omega, fun hstuck => ?_⟩
  obtain ⟨a, b, hd, hpost⟩ := h'.progress hcap hL hR hstuck
  exact ⟨a, b, hd, hpost⟩

end

end

end Duplex

end P2P
