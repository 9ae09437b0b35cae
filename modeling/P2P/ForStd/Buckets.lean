import Mathlib.Data.Finset.Basic
import P2P.ForStd.OrdMap

/-!
# Items in buckets

A map from keys to sets of items without empty buckets, in which items are moved.
-/

namespace P2P

open Function Option OrdMap

abbrev Buckets (κ ι : Type*) [LinearOrder κ] := OrdMap κ (Finset ι)

namespace Buckets

variable {κ ι : Type*} [LinearOrder κ]

def bucket (b : Buckets κ ι) (k : κ) : Finset ι := (b.get? k).getD ∅

/-- `place` says in which bucket each item is, and no bucket is empty. -/
structure Places (b : Buckets κ ι) (place : ι → Option κ) : Prop where
  mem_iff : ∀ k i, i ∈ b.bucket k ↔ place i = some k
  nonempty : ∀ k s, b.get? k = some s → s ≠ ∅

section Moves

variable [DecidableEq ι]

/-- Take an item out of a bucket; an empty bucket goes. -/
def remove (b : Buckets κ ι) (i : ι) (k : κ) : Buckets κ ι :=
  match b.get? k with
  | none => b
  | some s => if s.erase i = ∅ then b.erase k else b.insert k (s.erase i)

def put (b : Buckets κ ι) (i : ι) (k : κ) : Buckets κ ι := b.insert k (insert i (b.bucket k))

def move (b : Buckets κ ι) (i : ι) (old new : κ) : Buckets κ ι := (b.remove i old).put i new

theorem bucket_remove (b : Buckets κ ι) (i : ι) (k k' : κ) :
    (b.remove i k).bucket k' = if k' = k then (b.bucket k).erase i else b.bucket k' := by
  unfold remove bucket
  split
  · next hnone =>
    split
    · next heq => rw [heq, hnone]; rfl
    · rfl
  · next s hsome =>
    split
    · next hempty =>
      rw [get?_erase]
      split
      · rw [hsome, getD_some, hempty]
        rfl
      · rfl
    · rw [get?_insert]
      split
      · rw [hsome]
        rfl
      · rfl

theorem bucket_put (b : Buckets κ ι) (i : ι) (k k' : κ) :
    (b.put i k).bucket k' = if k' = k then insert i (b.bucket k) else b.bucket k' := by
  unfold put bucket
  rw [get?_insert]
  split <;> rfl

end Moves

namespace Places

variable {b : Buckets κ ι} {place : ι → Option κ}

theorem empty : Places (empty : Buckets κ ι) fun _ => none where
  mem_iff k i := by simp [bucket]
  nonempty := nofun

variable {i : ι} {k : κ}

section

variable (h : Places b place)

include h

theorem key_eq {k' : κ} (hk : i ∈ b.bucket k) (hk' : i ∈ b.bucket k') : k = k' :=
  some.inj (((h.mem_iff k i).mp hk).symm.trans ((h.mem_iff k' i).mp hk'))

theorem place_of_mem {e : κ × Finset ι} (he : e ∈ b.entries) (hi : i ∈ e.2) :
    place i = some e.1 := by
  have hget := (mem_entries b).mp he
  rw [← h.mem_iff, bucket, hget]
  exact hi

theorem exists_mem (hi : place i = some k) : ∃ s, (k, s) ∈ b.entries ∧ i ∈ s := by
  have hmem := (h.mem_iff k i).mpr hi
  unfold bucket at hmem
  cases hget : b.get? k with
  | none => simp [hget] at hmem
  | some s =>
    rw [hget] at hmem
    exact ⟨s, (mem_entries b).mpr hget, hmem⟩

/-- Going through the buckets by key, and through each in any order, meets the items by key. -/
theorem pairwise_scan {l : List (κ × Finset ι)} (hl : l.Sublist b.entries)
    {shuffle : Finset ι → List ι} (hshuffle : ∀ s i, i ∈ shuffle s → i ∈ s) :
    (l.flatMap fun e => shuffle e.2).Pairwise fun i j =>
      ∀ k k', place i = some k → place j = some k' → k ≤ k' := by
  rw [List.pairwise_flatMap]
  refine ⟨fun e he => ?_, ?_⟩
  · refine List.pairwise_of_forall_mem_list fun i hi j hj k k' hk hk' => ?_
    rw [h.place_of_mem (hl.subset he) (hshuffle _ i hi)] at hk
    rw [h.place_of_mem (hl.subset he) (hshuffle _ j hj)] at hk'
    exact (some.inj (hk.symm.trans hk')).le
  · refine List.Pairwise.imp_of_mem (fun {e e'} he he' hlt i hi j hj k k' hk hk' => ?_)
      (b.sorted.sublist hl)
    rw [h.place_of_mem (hl.subset he) (hshuffle _ i hi), some.injEq] at hk
    rw [h.place_of_mem (hl.subset he') (hshuffle _ j hj), some.injEq] at hk'
    exact (hk ▸ hk' ▸ hlt).le

theorem not_mem_of_ne {k' : κ} (hi : place i = some k ∨ place i = none) (hne : k' ≠ k) :
    i ∉ b.bucket k' := by
  rw [h.mem_iff]
  rcases hi with hi | hi
  · simp [hi, Ne.symm hne]
  · simp [hi]

end

variable [DecidableEq ι]

theorem remove (h : Places b place) (hi : place i = some k ∨ place i = none) :
    Places (b.remove i k) (update place i none) := by
  refine ⟨fun k' j => ?_, fun k' s hs => ?_⟩
  · rw [bucket_remove]
    by_cases hj : j = i
    · subst hj
      rw [update_self]
      split
      · simp
      · next hne => simp [h.not_mem_of_ne hi hne]
    · rw [update_of_ne hj, ← h.mem_iff]
      split
      · next heq => simp [heq, hj]
      · rfl
  · unfold Buckets.remove at hs
    split at hs
    · exact h.nonempty k' s hs
    · split at hs
      · exact h.nonempty k' s (get?_erase_eq_some hs).2
      · next hne =>
        rw [get?_insert] at hs
        split at hs
        · exact some.inj hs ▸ hne
        · exact h.nonempty k' s hs

theorem put (h : Places b place) (hi : place i = some k ∨ place i = none) :
    Places (b.put i k) (update place i (some k)) := by
  refine ⟨fun k' j => ?_, fun k' s hs => ?_⟩
  · rw [bucket_put]
    by_cases hj : j = i
    · subst hj
      rw [update_self]
      split
      · next heq => simp [heq]
      · next hne => simp [h.not_mem_of_ne hi hne, Ne.symm hne]
    · rw [update_of_ne hj, ← h.mem_iff]
      split
      · next heq => simp [heq, hj]
      · rfl
  · unfold Buckets.put at hs
    rw [get?_insert] at hs
    split at hs
    · exact some.inj hs ▸ Finset.insert_ne_empty i _
    · exact h.nonempty k' s hs

theorem move (h : Places b place) {old : κ} (new : κ) (hi : place i = some old ∨ place i = none) :
    Places (b.move i old new) (update place i (some new)) := by
  have hput := (h.remove hi).put (k := new) (.inr (update_self i none place))
  rwa [update_idem] at hput

end Places

end Buckets

end P2P
