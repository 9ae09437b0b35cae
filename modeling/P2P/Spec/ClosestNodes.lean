import P2P.ForStd.Smallest
import P2P.Spec.RouteTable

/-!
# The nodes closest to a target

`find_closest_nodes` starts at the bucket of the target and goes outwards on both sides.
-/

namespace P2P

open List

/-! ## The distance -/

theorem zipWith_xor_right_injective {a b t : Bytes} (ha : a.length = t.length)
    (hb : b.length = t.length) (h : zipWith (· ^^^ ·) a t = zipWith (· ^^^ ·) b t) : a = b := by
  induction t generalizing a b with
  | nil => rw [length_eq_zero_iff.mp ha, length_eq_zero_iff.mp hb]
  | cons x t ih =>
    obtain ⟨c, a, rfl⟩ := exists_cons_of_length_eq_add_one ha
    obtain ⟨d, b, rfl⟩ := exists_cons_of_length_eq_add_one hb
    rw [zipWith_cons_cons, zipWith_cons_cons] at h
    obtain ⟨hhead, htail⟩ := cons.inj h
    have hcd : c = d := by
      have hxor := congrArg (· ^^^ x) hhead
      simpa [UInt8.xor_assoc] using hxor
    rw [hcd, ih (by simpa using ha) (by simpa using hb) htail]

theorem distance_injective (target : NodeId) : Function.Injective fun id => distance id target := by
  intro a b h
  apply Subtype.ext
  exact zipWith_xor_right_injective (a.property.trans target.property.symm)
    (b.property.trans target.property.symm) h

theorem nodup_distanceTo {l : List BucketEntry} (h : (l.map (·.id)).Nodup) (target : NodeId) :
    (l.map (·.distanceTo target)).Nodup := by
  have hmap : l.map (·.distanceTo target) = (l.map (·.id)).map fun id => distance id target := by
    rw [map_map]
    rfl
  rw [hmap]
  exact h.map (distance_injective target)

namespace RouteTable

variable {rt : RouteTable} {target : NodeId} {closest bucket : List BucketEntry}

/-! ## The entries of one bucket -/

theorem addClosest_cons (closest : List BucketEntry) (e : BucketEntry) (bucket : List BucketEntry) :
    rt.addClosest closest (e :: bucket) =
      rt.addClosest (if e.id ≠ rt.myNodeId ∧ e.id ∉ closest.map (·.id) then closest ++ [e]
        else closest) bucket := rfl

theorem subset_addClosest (closest bucket : List BucketEntry) :
    closest ⊆ rt.addClosest closest bucket := by
  induction bucket generalizing closest with
  | nil => exact Subset.refl _
  | cons e bucket ih =>
    rw [addClosest_cons]
    refine Subset.trans ?_ (ih _)
    split
    · exact subset_append_left _ _
    · exact Subset.refl _

/-- A gathered entry comes from the bucket and has a new id that is not the own one. -/
structure Gathered (rt : RouteTable) (closest : List BucketEntry) : Prop where
  nodup : (closest.map (·.id)).Nodup
  not_own : ∀ e ∈ closest, e.id ≠ rt.myNodeId
  subset : closest ⊆ rt.allEntries

theorem Gathered.concat (h : Gathered rt closest) {e : BucketEntry} (he : e ∈ rt.allEntries)
    (hnew : e.id ≠ rt.myNodeId ∧ e.id ∉ closest.map (·.id)) : Gathered rt (closest ++ [e]) := by
  constructor
  · exact nodup_map_concat h.nodup hnew.2
  · intro e' he'
    cases mem_append.mp he' with
    | inl hold => exact h.not_own e' hold
    | inr hlast =>
      rw [mem_singleton.mp hlast]
      exact hnew.1
  · exact append_subset.mpr ⟨h.subset, cons_subset.mpr ⟨he, nil_subset _⟩⟩

theorem Gathered.addClosest (h : Gathered rt closest) (hbucket : bucket ⊆ rt.allEntries) :
    Gathered rt (rt.addClosest closest bucket) := by
  induction bucket generalizing closest with
  | nil => exact h
  | cons e bucket ih =>
    rw [cons_subset] at hbucket
    rw [addClosest_cons]
    refine ih ?_ hbucket.2
    split
    · rename_i hnew
      exact h.concat hbucket.1 hnew
    · exact h

theorem Valid.eq_of_id (h : rt.Valid) {e e' : BucketEntry} (he : e ∈ rt.allEntries)
    (he' : e' ∈ rt.allEntries) (hid : e.id = e'.id) : e = e' :=
  inj_on_of_nodup_map h.nodup he he' hid

theorem Valid.bucket_subset_addClosest (hvalid : rt.Valid) (h : Gathered rt closest)
    (hbucket : bucket ⊆ rt.allEntries) : bucket ⊆ rt.addClosest closest bucket := by
  induction bucket generalizing closest with
  | nil => exact nil_subset _
  | cons e bucket ih =>
    rw [cons_subset] at hbucket
    rw [addClosest_cons, cons_subset]
    by_cases hnew : e.id ∉ closest.map (·.id)
    · have hboth := And.intro (hvalid.not_own e hbucket.1) hnew
      rw [if_pos hboth]
      refine ⟨subset_addClosest _ _ ?_, ih (h.concat hbucket.1 hboth) hbucket.2⟩
      exact mem_append_right _ (mem_singleton_self e)
    · rw [if_neg fun hboth => hnew hboth.2]
      refine ⟨subset_addClosest _ _ ?_, ih h hbucket.2⟩
      -- the entry with this id is the same one
      obtain ⟨e', he', hid⟩ := mem_map.mp (not_not.mp hnew)
      rwa [← hvalid.eq_of_id (h.subset he') hbucket.1 hid]

/-! ## The loop over the buckets -/

theorem bucketAt_subset (rt : RouteTable) (idx : Nat) : rt.bucketAt idx ⊆ rt.allEntries := by
  intro e he
  unfold bucketAt at he
  split at he
  · rename_i hidx
    exact mem_allEntries.mpr ⟨idx, by rw [entriesAt_of_lt hidx]; exact he⟩
  · exact absurd he not_mem_nil

theorem mem_bucketAt {e : BucketEntry} (he : e ∈ rt.allEntries) :
    ∃ idx < 160, e ∈ rt.bucketAt idx := by
  obtain ⟨idx, hidx⟩ := mem_allEntries.mp he
  by_cases hlt : idx < 160
  · refine ⟨idx, hlt, ?_⟩
    rw [entriesAt_of_lt hlt] at hidx
    rwa [bucketAt, dif_pos hlt]
  · rw [entriesAt, Vector.getElem?_eq_none (by omega)] at hidx
    exact absurd hidx not_mem_nil

def visit (rt : RouteTable) (targetIdx : Nat) (closest : List BucketEntry) (i : Nat) :
    List BucketEntry :=
  let closest := if i ≤ targetIdx then rt.addClosest closest (rt.bucketAt (targetIdx - i))
    else closest
  if targetIdx + i < 160 then rt.addClosest closest (rt.bucketAt (targetIdx + i)) else closest

theorem expandClosest_cons (targetIdx k i : Nat) (is : List Nat) (closest : List BucketEntry) :
    rt.expandClosest targetIdx k (i :: is) closest =
      if k ≤ (rt.visit targetIdx closest i).length ∧ targetIdx < i ∧ 160 ≤ targetIdx + i then
        rt.visit targetIdx closest i
      else rt.expandClosest targetIdx k is (rt.visit targetIdx closest i) := rfl

theorem Gathered.visit (h : Gathered rt closest) (targetIdx i : Nat) :
    Gathered rt (rt.visit targetIdx closest i) := by
  unfold RouteTable.visit
  have hleft : Gathered rt (if i ≤ targetIdx then
      rt.addClosest closest (rt.bucketAt (targetIdx - i)) else closest) := by
    split
    · exact h.addClosest (bucketAt_subset _ _)
    · exact h
  dsimp only
  split
  · exact hleft.addClosest (bucketAt_subset _ _)
  · exact hleft

theorem Gathered.expandClosest (h : Gathered rt closest) (targetIdx k : Nat) (is : List Nat) :
    Gathered rt (rt.expandClosest targetIdx k is closest) := by
  induction is generalizing closest with
  | nil => exact h
  | cons i is ih =>
    rw [expandClosest_cons]
    split
    · exact h.visit targetIdx i
    · exact ih (h.visit targetIdx i)

def Covers (rt : RouteTable) (targetIdx n : Nat) (closest : List BucketEntry) : Prop :=
  ∀ idx < 160, idx ≤ targetIdx + n → targetIdx ≤ idx + n → rt.bucketAt idx ⊆ closest

theorem Valid.covers_visit (hvalid : rt.Valid) (h : Gathered rt closest) {targetIdx n : Nat}
    (hcovers : rt.Covers targetIdx n closest) :
    rt.Covers targetIdx (n + 1) (rt.visit targetIdx closest (n + 1)) := by
  intro idx hidx hright hleft
  unfold RouteTable.visit
  by_cases hbelow : targetIdx = idx + (n + 1)
  · -- the bucket on the left
    have hle : n + 1 ≤ targetIdx := by omega
    have hbucket : targetIdx - (n + 1) = idx := by omega
    rw [if_pos hle, hbucket]
    have hsub := hvalid.bucket_subset_addClosest h (bucketAt_subset rt idx)
    dsimp only
    split
    · exact Subset.trans hsub (subset_addClosest _ _)
    · exact hsub
  · by_cases habove : idx = targetIdx + (n + 1)
    · -- the bucket on the right
      dsimp only
      rw [← habove, if_pos hidx]
      apply hvalid.bucket_subset_addClosest
      · split
        · exact h.addClosest (bucketAt_subset _ _)
        · exact h
      · exact bucketAt_subset rt idx
    · -- a bucket that was there before
      have hold : rt.bucketAt idx ⊆ closest := hcovers idx hidx (by omega) (by omega)
      have hold' : rt.bucketAt idx ⊆ if n + 1 ≤ targetIdx then
          rt.addClosest closest (rt.bucketAt (targetIdx - (n + 1))) else closest := by
        split
        · exact Subset.trans hold (subset_addClosest _ _)
        · exact hold
      dsimp only
      split
      · exact Subset.trans hold' (subset_addClosest _ _)
      · exact hold'

theorem Valid.subset_expandClosest (hvalid : rt.Valid) (h : Gathered rt closest)
    {targetIdx n m : Nat} (hend : 159 ≤ n + m) (hcovers : rt.Covers targetIdx n closest)
    (htarget : targetIdx < 160) (k : Nat) :
    rt.allEntries ⊆ rt.expandClosest targetIdx k (range' (n + 1) m) closest := by
  induction m generalizing n closest with
  | zero =>
    intro e he
    obtain ⟨idx, hidx, hmem⟩ := mem_bucketAt he
    exact hcovers idx hidx (by omega) (by omega) hmem
  | succ m ih =>
    have hvisit := hvalid.covers_visit h hcovers
    rw [range'_succ, expandClosest_cons]
    split
    · rename_i hstop
      intro e he
      obtain ⟨idx, hidx, hmem⟩ := mem_bucketAt he
      exact hvisit idx hidx (by omega) (by omega) hmem
    · exact ih (h.visit targetIdx (n + 1)) (by omega) hvisit

/-! ## The nodes that are found -/

/-- The nodes that the loops gather, before they are sorted. -/
def gather (rt : RouteTable) (target : NodeId) (k : Nat) : List BucketEntry :=
  rt.expandClosest (getBucketIndex rt.myNodeId target) k (List.range' 1 159)
    (rt.addClosest [] (rt.bucketAt (getBucketIndex rt.myNodeId target)))

theorem gathered_nil : Gathered rt [] := ⟨nodup_nil, nofun, nil_subset _⟩

theorem gathered_gather (rt : RouteTable) (target : NodeId) (k : Nat) :
    Gathered rt (rt.gather target k) :=
  (gathered_nil.addClosest (bucketAt_subset _ _)).expandClosest _ _ _

theorem getBucketIndex_lt (a b : NodeId) : getBucketIndex a b < 160 := by
  by_cases h : a = b
  · subst h
    have hzero : distance a a = replicate 20 0 := by
      apply ext_getElem
      · rw [distance, length_zipWith, a.property, length_replicate]
        rfl
      · intro i _ _
        simp only [distance, getElem_zipWith, UInt8.xor_self, getElem_replicate]
    rw [getBucketIndex, hzero]
    decide
  · rw [getBucketIndex_eq h]
    exact commonPrefix_lt h

theorem Valid.gather_perm (hvalid : rt.Valid) (target : NodeId) (k : Nat) :
    (rt.gather target k).Perm rt.allEntries := by
  have hgathered := gathered_gather rt target k
  have hfirst : rt.Covers (getBucketIndex rt.myNodeId target) 0
      (rt.addClosest [] (rt.bucketAt (getBucketIndex rt.myNodeId target))) := by
    intro idx _ hright hleft
    have heq : idx = getBucketIndex rt.myNodeId target := by omega
    rw [heq]
    exact hvalid.bucket_subset_addClosest gathered_nil (bucketAt_subset _ _)
  have hall : rt.allEntries ⊆ rt.gather target k :=
    hvalid.subset_expandClosest (gathered_nil.addClosest (bucketAt_subset _ _)) (by omega) hfirst
      (getBucketIndex_lt _ _) k
  rw [perm_ext_iff_of_nodup (hgathered.nodup.of_map _) (hvalid.nodup.of_map _)]
  exact fun e => ⟨fun he => hgathered.subset he, fun he => hall he⟩

theorem findClosestNodes_smallest (rt : RouteTable) (target : NodeId) (k : Nat) :
    Smallest (·.distanceTo target) k (rt.gather target k) (rt.findClosestNodes target k) := by
  apply Smallest.of_sorted (mergeSort_perm _ _)
  apply Increasing.of_sorted
  · have hsorted := @pairwise_mergeSort _
      (fun a b : BucketEntry => decide ¬ distance b.id target < distance a.id target)
      (fun a b c hab hbc => ?_) (fun a b => ?_) (rt.gather target k)
    · refine hsorted.imp fun {a b} hle => ?_
      simpa [BucketEntry.distanceTo] using hle
    · simp only [not_lt, decide_eq_true_eq] at hab hbc ⊢
      exact le_trans hab hbc
    · simp only [not_lt, Bool.or_eq_true, decide_eq_true_eq]
      exact le_total _ _
  · apply nodup_distanceTo
    exact ((mergeSort_perm _ _).map _).nodup_iff.mpr (gathered_gather rt target k).nodup

theorem size_eq (rt : RouteTable) : rt.size = rt.allEntries.length := by
  rw [size, allEntries, length_flatMap]

/-- For every valid table, every target, the own id included, and every `k`, the closest entries of
    the table are found, as many as asked for or all, each once and by distance. -/
theorem find_closest_nodes_exact {rt : RouteTable} (hvalid : rt.Valid) (target : NodeId)
    (k : Nat) :
    (rt.findClosestNodes target k).length = min k rt.size ∧
      (∀ e ∈ rt.findClosestNodes target k, e ∈ rt.allEntries) ∧
      ((rt.findClosestNodes target k).map (·.id)).Nodup ∧
      (rt.findClosestNodes target k).Pairwise
        (fun a b => distance a.id target < distance b.id target) ∧
      ∀ a ∈ rt.findClosestNodes target k, ∀ b ∈ rt.allEntries,
        b ∉ rt.findClosestNodes target k → distance a.id target < distance b.id target := by
  have hperm := hvalid.gather_perm target k
  have hsmallest := findClosestNodes_smallest rt target k
  refine ⟨?_, ?_, ?_, hsmallest.increasing, ?_⟩
  · rw [hsmallest.length_eq, hperm.length_eq, size_eq]
  · intro e he
    exact hperm.subset (hsmallest.subset he)
  · have hnodup := hsmallest.increasing.nodup
    have hmap : (rt.findClosestNodes target k).map (·.distanceTo target) =
        ((rt.findClosestNodes target k).map (·.id)).map fun id => distance id target := by
      rw [map_map]
      rfl
    rw [hmap] at hnodup
    exact hnodup.of_map _
  · intro a ha b hb hout
    exact hsmallest.key_lt a ha b (hperm.mem_iff.mpr hb) hout

theorem find_closest_nodes_exact_two :
    ∃ rt, runSteps step [.insert (entryOf 128 .good) 1, .insert (entryOf 64 .good) 2]
        (RouteTable.new (idOf 0) 0) = some rt ∧ rt.size = 2 ∧
      (rt.findClosestNodes (idOf 0) 1).length = 1 ∧
      ∀ a ∈ rt.findClosestNodes (idOf 0) 1, ∀ b ∈ rt.allEntries,
        b ∉ rt.findClosestNodes (idOf 0) 1 → distance a.id (idOf 0) < distance b.id (idOf 0) := by
  have hstate : (runSteps step [.insert (entryOf 128 .good) 1, .insert (entryOf 64 .good) 2]
      (RouteTable.new (idOf 0) 0)).map size = some 2 := by decide +kernel
  obtain ⟨rt, hrun, hsize⟩ := Option.map_eq_some_iff.mp hstate
  have hfit : rt.AllFit :=
    runSteps_preserves (fun _ _ _ hstep h => h.step hstep) hrun (.new (idOf 0) 0)
  obtain ⟨hlen, -, -, -, hclosest⟩ := find_closest_nodes_exact hfit.valid (idOf 0) 1
  rw [hsize] at hlen
  exact ⟨rt, hrun, hsize, hlen, hclosest⟩

end RouteTable

end P2P
