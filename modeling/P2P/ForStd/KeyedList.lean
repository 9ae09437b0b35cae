import Mathlib.Data.List.Nodup

/-!
# Lists whose elements have different keys

Elements are found, changed and removed by their keys, which are all different.
-/

namespace List

variable {α κ : Type*} {key : α → κ} {l : List α}

theorem eraseP_eq_filter_key [DecidableEq κ] (h : (l.map key).Nodup) (k : κ) :
    l.eraseP (key · = k) = l.filter (key · ≠ k) := by
  induction l with
  | nil => rfl
  | cons a l ih =>
    rw [map_cons, nodup_cons] at h
    by_cases ha : key a = k
    · have hrest : l.filter (key · ≠ k) = l := by
        apply filter_eq_self.mpr
        intro b hb
        apply decide_eq_true
        intro heq
        apply h.1
        rw [ha, ← heq]
        exact mem_map_of_mem hb
      rw [eraseP_cons_of_pos (by simpa using ha), filter_cons_of_neg (by simpa using ha), hrest]
    · rw [eraseP_cons_of_neg (by simpa using ha), filter_cons_of_pos (by simpa using ha), ih h.2]

theorem key_not_mem_filter [DecidableEq κ] (l : List α) (k : κ) :
    k ∉ (l.filter (key · ≠ k)).map key := by
  intro hmem
  obtain ⟨a, ha, heq⟩ := mem_map.mp hmem
  have hne := (mem_filter.mp ha).2
  simp [heq] at hne

theorem nodup_map_concat (h : (l.map key).Nodup) {a : α} (ha : key a ∉ l.map key) :
    ((l ++ [a]).map key).Nodup := by
  rw [map_append, map_singleton, nodup_append]
  refine ⟨h, nodup_singleton _, ?_⟩
  intro k hk k' hk' heq
  rw [mem_singleton.mp hk'] at heq
  exact ha (heq ▸ hk)

theorem flatMap_eq_of_single {ks : List κ} (hnodup : ks.Nodup) {k : κ} (hk : k ∈ ks)
    {f : κ → List α} (hother : ∀ j ∈ ks, j ≠ k → f j = []) : ks.flatMap f = f k := by
  induction ks with
  | nil => exact absurd hk not_mem_nil
  | cons j ks ih =>
    rw [nodup_cons] at hnodup
    rw [flatMap_cons]
    cases mem_cons.mp hk with
    | inl heq =>
      have hrest : ks.flatMap f = [] := by
        rw [flatMap_eq_nil_iff]
        intro i hi
        exact hother i (mem_cons_of_mem _ hi) fun h => hnodup.1 (heq ▸ h ▸ hi)
      rw [hrest, append_nil, heq]
    | inr hmem =>
      have hhead : f j = [] := hother j mem_cons_self fun h => hnodup.1 (h ▸ hmem)
      rw [hhead, nil_append]
      exact ih hnodup.2 hmem fun i hi => hother i (mem_cons_of_mem _ hi)

section PushNew

variable [DecidableEq κ]

/-- Append an element unless its key is there already. -/
def pushNew (key : α → κ) (l : List α) (a : α) : List α :=
  if key a ∈ l.map key then l else l ++ [a]

theorem nodup_pushNew (h : (l.map key).Nodup) (a : α) : ((l.pushNew key a).map key).Nodup := by
  unfold pushNew
  split
  · exact h
  · next hnew => exact nodup_map_concat h hnew

theorem mem_of_mem_pushNew {a b : α} (h : b ∈ l.pushNew key a) : b ∈ l ∨ b = a := by
  unfold pushNew at h
  split at h
  · exact .inl h
  · simpa using h

theorem key_mem_pushNew {a : α} {k : κ} :
    k ∈ (l.pushNew key a).map key ↔ k ∈ l.map key ∨ k = key a := by
  unfold pushNew
  split
  · next hold =>
    constructor
    · exact .inl
    · rintro (h | rfl)
      · exact h
      · exact hold
  · simp

theorem nodup_foldl_pushNew (h : (l.map key).Nodup) (new : List α) :
    ((new.foldl (pushNew key) l).map key).Nodup := by
  induction new generalizing l with
  | nil => exact h
  | cons a new ih => exact ih (nodup_pushNew h a)

theorem mem_of_mem_foldl_pushNew {new : List α} {b : α} (h : b ∈ new.foldl (pushNew key) l) :
    b ∈ l ∨ b ∈ new := by
  induction new generalizing l with
  | nil => exact .inl h
  | cons a new ih =>
    cases ih h with
    | inr hnew => exact .inr (mem_cons_of_mem _ hnew)
    | inl hpush =>
      cases mem_of_mem_pushNew hpush with
      | inl hold => exact .inl hold
      | inr heq => exact .inr (heq ▸ mem_cons_self)

theorem key_mem_foldl_pushNew {new : List α} {k : κ} :
    k ∈ (new.foldl (pushNew key) l).map key ↔ k ∈ l.map key ∨ k ∈ new.map key := by
  induction new generalizing l with
  | nil => simp
  | cons a new ih => rw [foldl_cons, ih, key_mem_pushNew, map_cons, mem_cons, or_assoc]

end PushNew

theorem map_key_replaceF {f : α → Option α} (hf : ∀ a b, f a = some b → key b = key a)
    (l : List α) : (l.replaceF f).map key = l.map key := by
  induction l with
  | nil => rfl
  | cons a l ih =>
    rw [replaceF]
    cases hfa : f a with
    | none => rw [map_cons, ih, map_cons]
    | some b => rw [map_cons, hf a b hfa, map_cons]

theorem map_key_modify {f : α → α} (hf : ∀ a, key (f a) = key a) (l : List α) (i : Nat) :
    (l.modify i f).map key = l.map key := by
  apply ext_getElem?
  intro j
  rw [getElem?_map, getElem?_modify, getElem?_map]
  split
  · cases l[j]? with
    | none => rfl
    | some a => exact congrArg some (hf a)
  · simp

theorem mem_of_mem_modify {f : α → α} {i : Nat} {a : α} (h : a ∈ l.modify i f) :
    a ∈ l ∨ ∃ b, l[i]? = some b ∧ a = f b := by
  obtain ⟨j, hj⟩ := mem_iff_getElem?.mp h
  rw [getElem?_modify] at hj
  obtain ⟨b, hb, hab⟩ := Option.map_eq_some_iff.mp hj
  split at hab
  · rename_i hij
    exact .inr ⟨b, hij ▸ hb, hab.symm⟩
  · exact .inl (mem_of_getElem? (hab ▸ hb))

end List
