import Mathlib.Data.List.Basic
import Mathlib.Data.Option.Basic

/-!
# Runs of a system

A step function takes a state and a step to the next state, or to nothing when the step is not
possible there.
-/

namespace P2P

open List Option

variable {σ α γ : Type*} (step : σ → α → Option σ)

/-- The state after a sequence of steps; `none` when one of them is not possible. -/
def runSteps : List α → σ → Option σ
  | [], s => some s
  | a :: as, s => (step s a).bind (runSteps as)

/-- Every step of a run meets the condition in the state it is taken in. -/
def StepsMeet (ok : σ → α → Prop) : List α → σ → Prop
  | [], _ => True
  | a :: as, s => ok s a ∧ ∀ s', step s a = some s' → StepsMeet ok as s'

/-- The run from `s` takes the last of its steps with the property `P` in the state `t`. -/
def LastStep (P : σ → α → Prop) (as : List α) (s t : σ) : Prop :=
  ∃ before a after, as = before ++ a :: after ∧ runSteps step before s = some t ∧ P t a ∧
    ∀ between b rest u, after = between ++ b :: rest →
      runSteps step (before ++ a :: between) s = some u → ¬ P u b

/-- The system that also records something of the steps it takes. -/
def recording (record : γ → α → γ) (r : γ × σ) (a : α) : Option (γ × σ) :=
  (step r.2 a).map fun s' => (record r.1 a, s')

variable {step} {ok : σ → α → Prop} {s s' : σ}

theorem runSteps_append (as bs : List α) (s : σ) :
    runSteps step (as ++ bs) s = (runSteps step as s).bind (runSteps step bs) := by
  induction as generalizing s with
  | nil => rfl
  | cons a as ih =>
    simp only [cons_append, runSteps, bind_assoc]
    exact bind_congr fun s' _ => ih s'

variable {as : List α} {p : α → Prop}

theorem StepsMeet.of_forall (h : ∀ a ∈ as, p a) (s : σ) : StepsMeet step (fun _ a => p a) as s := by
  induction as generalizing s with
  | nil => trivial
  | cons a as ih =>
    refine ⟨h a (mem_cons_self ..), fun s' _ => ih (fun b hb => ?_) s'⟩
    exact h b (mem_cons_of_mem _ hb)

theorem StepsMeet.and {ok' : σ → α → Prop} (h : StepsMeet step ok as s)
    (h' : StepsMeet step ok' as s) : StepsMeet step (fun s a => ok s a ∧ ok' s a) as s := by
  induction as generalizing s with
  | nil => trivial
  | cons a as ih => exact ⟨⟨h.1, h'.1⟩, fun s' hs' => ih (h.2 s' hs') (h'.2 s' hs')⟩

/-- A condition that can be checked in a state can be checked along a run. -/
instance StepsMeet.decidable [∀ s a, Decidable (ok s a)] :
    (as : List α) → (s : σ) → Decidable (StepsMeet step ok as s)
  | [], _ => isTrue trivial
  | a :: as, s =>
    match hstep : step s a with
    | none => decidable_of_iff (ok s a) ⟨fun h => ⟨h, by rw [hstep]; exact nofun⟩, fun h => h.1⟩
    | some s₁ =>
      have := StepsMeet.decidable as s₁
      decidable_of_iff (ok s a ∧ StepsMeet step ok as s₁) <| by
        refine and_congr_right fun _ => ⟨fun h s' hs' => ?_, fun h => h s₁ hstep⟩
        rw [hstep] at hs'
        exact Option.some.inj hs' ▸ h

theorem StepsMeet.forall (hp : ∀ s a, ok s a → p a) (h : StepsMeet step ok as s)
    (hrun : runSteps step as s = some s') : ∀ a ∈ as, p a := by
  induction as generalizing s with
  | nil => exact nofun
  | cons a as ih =>
    obtain ⟨s₁, hstep, hrest⟩ := bind_eq_some_iff.mp hrun
    intro b hb
    cases mem_cons.mp hb with
    | inl heq => rw [heq]; exact hp s a h.1
    | inr hmem => exact ih (h.2 s₁ hstep) hrest b hmem

theorem StepsMeet.at {bs : List α} {a : α} (h : StepsMeet step ok (as ++ a :: bs) s)
    (hrun : runSteps step as s = some s') : ok s' a := by
  induction as generalizing s with
  | nil =>
    cases hrun
    exact h.1
  | cons b as ih =>
    obtain ⟨s₁, hs₁, hrest⟩ := bind_eq_some_iff.mp hrun
    exact ih (h.2 s₁ hs₁) hrest

theorem runSteps_history {I : List α → σ → Prop}
    (hstep : ∀ as s a s', ok s a → step s a = some s' → I as s → I (as ++ [a]) s')
    (h : StepsMeet step ok as s) (hrun : runSteps step as s = some s') (hI : I [] s) : I as s' := by
  -- the induction is on the steps to come, for any steps before them
  suffices ∀ before, I before s → I (before ++ as) s' from this [] hI
  clear hI
  induction as generalizing s with
  | nil =>
    intro before hI
    rw [← Option.some.inj hrun, append_nil]
    exact hI
  | cons a as ih =>
    intro before hI
    obtain ⟨s₁, hs₁, hrest⟩ := bind_eq_some_iff.mp hrun
    rw [append_cons]
    exact ih (h.2 s₁ hs₁) hrest (before ++ [a]) (hstep before s a s₁ h.1 hs₁ hI)

variable {I : σ → Prop}

theorem runSteps_invariant (hstep : ∀ s a s', ok s a → step s a = some s' → I s → I s')
    (h : StepsMeet step ok as s) (hrun : runSteps step as s = some s') (hI : I s) : I s' :=
  runSteps_history (I := fun _ => I) (fun _ => hstep) h hrun hI

theorem runSteps_preserves (hstep : ∀ s a s', step s a = some s' → I s → I s')
    (hrun : runSteps step as s = some s') (hI : I s) : I s' :=
  runSteps_invariant (fun s a s' _ => hstep s a s')
    (StepsMeet.of_forall (p := fun _ => True) (fun _ _ => trivial) s) hrun hI

theorem runSteps_length_le {μ : σ → Nat}
    (hstep : ∀ s a s', ok s a → step s a = some s' → μ s' < μ s) (h : StepsMeet step ok as s)
    (hrun : runSteps step as s = some s') : as.length + μ s' ≤ μ s := by
  refine runSteps_history (I := fun bs t => bs.length + μ t ≤ μ s) (fun bs t a t' hok ht hle => ?_)
    h hrun (by simp)
  have hlt := hstep t a t' hok ht
  rw [length_append, length_singleton]
  omega

theorem runSteps_history_preserves {I : List α → σ → Prop}
    (hstep : ∀ as s a s', step s a = some s' → I as s → I (as ++ [a]) s')
    (hrun : runSteps step as s = some s') (hI : I [] s) : I as s' :=
  runSteps_history (fun as s a s' _ => hstep as s a s')
    (StepsMeet.of_forall (p := fun _ => True) (fun _ _ => trivial) s) hrun hI

/-- For runs that come to their end: `P` relates the state to the record of the steps. -/
theorem runSteps_total {P : γ → σ → Prop} (record : γ → α → γ)
    (hstep : ∀ g s a, ok s a → P g s → ∃ s', step s a = some s' ∧ P (record g a) s') {g : γ}
    (h : StepsMeet step ok as s) (hP : P g s) :
    ∃ s', runSteps step as s = some s' ∧ P (as.foldl record g) s' := by
  induction as generalizing g s with
  | nil => exact ⟨s, rfl, hP⟩
  | cons a as ih =>
    obtain ⟨s₁, hs₁, hP₁⟩ := hstep g s a h.1 hP
    obtain ⟨s', hrun, hP'⟩ := ih (h.2 s₁ hs₁) hP₁
    exact ⟨s', by rw [runSteps, hs₁, bind_some, hrun], hP'⟩

variable {P : σ → α → Prop} {t : σ}

theorem not_lastStep_nil : ¬ LastStep step P [] s t := by
  intro h
  obtain ⟨before, a, after, hnil, -⟩ := h
  simp at hnil

theorem lastStep_concat (hrun : runSteps step as s = some s') (c : α) :
    LastStep step P (as ++ [c]) s t ↔ (P s' c ∧ t = s') ∨ (¬ P s' c ∧ LastStep step P as s t) := by
  constructor
  · intro h
    obtain ⟨before, a, after, has, hbefore, hPa, hafter⟩ := h
    cases eq_nil_or_concat' after with
    | inl hnil =>
      subst hnil
      obtain ⟨rfl, hac⟩ := append_inj' has rfl
      cases hac
      cases hrun.symm.trans hbefore
      exact .inl ⟨hPa, rfl⟩
    | inr hconcat =>
      obtain ⟨after, d, rfl⟩ := hconcat
      rw [← cons_append, ← append_assoc] at has
      obtain ⟨rfl, hcd⟩ := append_inj' has rfl
      cases hcd
      refine .inr ⟨hafter after c [] s' rfl hrun, before, a, after, rfl, hbefore, hPa, ?_⟩
      intro between b rest u hsplit hu
      apply hafter between b (rest ++ [c]) u _ hu
      rw [hsplit, List.append_assoc, List.cons_append]
  · intro h
    cases h with
    | inl hlast =>
      obtain ⟨hP, rfl⟩ := hlast
      refine ⟨as, c, [], rfl, hrun, hP, ?_⟩
      intro between b rest u hsplit
      simp at hsplit
    | inr hold =>
      obtain ⟨hnot, before, a, after, rfl, hbefore, hPa, hafter⟩ := hold
      refine ⟨before, a, after ++ [c], ?_, hbefore, hPa, ?_⟩
      · rw [append_assoc, cons_append]
      · intro between b rest u hsplit hu
        cases eq_nil_or_concat' rest with
        | inl hnil =>
          -- the step is the one at the end
          subst hnil
          obtain ⟨rfl, hcb⟩ := append_inj' hsplit rfl
          cases hcb
          cases hrun.symm.trans hu
          exact hnot
        | inr hconcat =>
          obtain ⟨rest, d, rfl⟩ := hconcat
          rw [← cons_append, ← append_assoc] at hsplit
          obtain ⟨hsplit, -⟩ := append_inj' hsplit rfl
          exact hafter between b rest u hsplit hu

section Recording

variable {record : γ → α → γ} {okr : γ × σ → α → Prop} {g : γ} {as : List α}

theorem stepsMeet_recording_cons {a : α} :
    StepsMeet (recording step record) okr (a :: as) (g, s) ↔
      okr (g, s) a ∧ ∀ s', step s a = some s' →
        StepsMeet (recording step record) okr as (record g a, s') := by
  constructor
  · intro h
    exact ⟨h.1, fun s' hs' => h.2 _ (by rw [recording, hs', map_some])⟩
  · intro h
    refine ⟨h.1, fun r hr => ?_⟩
    obtain ⟨s', hs', rfl⟩ := map_eq_some_iff.mp hr
    exact h.2 s' hs'

theorem runSteps_recording (record : γ → α → γ) (g : γ) (hrun : runSteps step as s = some s') :
    runSteps (recording step record) as (g, s) = some (as.foldl record g, s') := by
  induction as generalizing g s with
  | nil => rw [← Option.some.inj hrun]; rfl
  | cons a as ih =>
    obtain ⟨s₁, hs₁, hrest⟩ := bind_eq_some_iff.mp hrun
    rw [runSteps, recording, hs₁, map_some, bind_some]
    exact ih (record g a) hrest

end Recording

end P2P
