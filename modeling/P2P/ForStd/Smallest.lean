import Mathlib.Data.List.Sort

/-!
# The elements with the smallest keys

Sorting a list by a key and cutting it off behind some elements.
-/

namespace List

variable {α β : Type*} [LinearOrder β] {key : α → β} {l r s : List α} {k : Nat}

/-- `std::sort` by a key. -/
def sortBy (key : α → β) (l : List α) : List α := l.insertionSort fun a b => key a ≤ key b

def Increasing (key : α → β) (l : List α) : Prop := l.Pairwise fun a b => key a < key b

/-- The `k` elements of a list with the smallest keys, in their order. -/
structure Smallest (key : α → β) (k : Nat) (l r : List α) : Prop where
  length_eq : r.length = min k l.length
  subset : r ⊆ l
  increasing : r.Increasing key
  key_lt : ∀ a ∈ r, ∀ b ∈ l, b ∉ r → key a < key b

theorem sortBy_perm (key : α → β) (l : List α) : (l.sortBy key).Perm l :=
  perm_insertionSort _ l

theorem mem_sortBy {a : α} : a ∈ l.sortBy key ↔ a ∈ l := (sortBy_perm key l).mem_iff

theorem Increasing.of_sorted (hsorted : l.Pairwise fun a b => key a ≤ key b)
    (hnodup : (l.map key).Nodup) : l.Increasing key := by
  unfold List.Nodup at hnodup
  rw [pairwise_map] at hnodup
  exact hsorted.imp₂ (fun _ _ hle hne => lt_of_le_of_ne hle hne) hnodup

theorem increasing_sortBy (hnodup : (l.map key).Nodup) : (l.sortBy key).Increasing key := by
  apply Increasing.of_sorted
  · have htotal : Std.Total fun a b => key a ≤ key b := ⟨fun a b => le_total (key a) (key b)⟩
    exact pairwise_insertionSort _ l
  · exact ((sortBy_perm key l).map key).nodup_iff.mpr hnodup

theorem Increasing.nodup (h : l.Increasing key) : (l.map key).Nodup := by
  unfold List.Nodup
  rw [pairwise_map]
  exact h.imp fun hlt => ne_of_lt hlt

theorem Increasing.take (h : l.Increasing key) (k : Nat) : (l.take k).Increasing key :=
  Pairwise.sublist (take_sublist k l) h

theorem Smallest.of_sorted (hperm : s.Perm l) (hsorted : s.Increasing key) (k : Nat) :
    Smallest key k l (s.take k) where
  length_eq := by rw [length_take, hperm.length_eq]
  subset _ ha := hperm.subset (mem_of_mem_take ha)
  increasing := hsorted.take k
  key_lt a ha b hb hout := by
    have hb' : b ∈ s.take k ++ s.drop k := by
      rw [take_append_drop]
      exact hperm.mem_iff.mpr hb
    have hdrop : b ∈ s.drop k := (mem_append.mp hb').resolve_left hout
    have hsplit : (s.take k ++ s.drop k).Pairwise fun a b => key a < key b := by
      rw [take_append_drop]
      exact hsorted
    exact (pairwise_append.mp hsplit).2.2 a ha b hdrop

theorem Smallest.take_sortBy (hnodup : (l.map key).Nodup) (k : Nat) :
    Smallest key k l ((l.sortBy key).take k) :=
  .of_sorted (sortBy_perm key l) (increasing_sortBy hnodup) k

theorem Smallest.self (hsorted : l.Increasing key) (hlen : l.length ≤ k) : Smallest key k l l where
  length_eq := (Nat.min_eq_right hlen).symm
  subset := Subset.refl l
  increasing := hsorted
  key_lt _ _ _ hb hout := absurd hb hout

theorem Smallest.of_perm (h : Smallest key k l r) (hperm : l.Perm s) : Smallest key k s r where
  length_eq := by rw [h.length_eq, hperm.length_eq]
  subset _ ha := hperm.subset (h.subset ha)
  increasing := h.increasing
  key_lt a ha b hb hout := h.key_lt a ha b (hperm.mem_iff.mpr hb) hout

theorem Smallest.map {γ : Type*} {f : α → γ} {key : γ → β}
    (h : Smallest (fun a => key (f a)) k l r) : Smallest key k (l.map f) (r.map f) where
  length_eq := by rw [length_map, length_map, h.length_eq]
  subset := map_subset f h.subset
  increasing := pairwise_map.mpr h.increasing
  key_lt c hc d hd hout := by
    obtain ⟨a, ha, rfl⟩ := mem_map.mp hc
    obtain ⟨b, hb, rfl⟩ := mem_map.mp hd
    exact h.key_lt a ha b hb fun hmem => hout (mem_map_of_mem hmem)

theorem Smallest.perm (h : Smallest key k l r) (hlen : l.length ≤ k) : r.Perm l := by
  have hnodup : r.Nodup := h.increasing.nodup.of_map key
  apply (subperm_of_subset hnodup h.subset).perm_of_length_le
  rw [h.length_eq, Nat.min_eq_right hlen]

end List
