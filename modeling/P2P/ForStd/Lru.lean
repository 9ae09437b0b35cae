import P2P.ForStd.KeyedList
import P2P.ForStd.OrdMap

/-!
# A list of keys by last use

A linked list of keys with an index of its nodes. The number of a node stands for an iterator and is
not used twice.
-/

namespace P2P

open List

namespace Lru

variable {κ : Type*} [LinearOrder κ]

def unlink (order : List (Nat × κ)) (index : OrdMap κ Nat) (k : κ) : List (Nat × κ) :=
  match index.get? k with
  | some node => order.eraseP (·.1 = node)
  | none => order

/-- The index finds the node of each key of the list; `next` is the number of the next
    node. -/
structure Linked (order : List (Nat × κ)) (index : OrdMap κ Nat) (next : Nat) : Prop where
  nodup : (order.map Prod.fst).Nodup
  lt_next : ∀ p ∈ order, p.1 < next
  get?_iff : ∀ k node, index.get? k = some node ↔ (node, k) ∈ order

namespace Linked

variable {order : List (Nat × κ)} {index : OrdMap κ Nat} {next : Nat}

theorem empty : Linked ([] : List (Nat × κ)) OrdMap.empty 0 where
  nodup := nodup_nil
  lt_next := nofun
  get?_iff k node := by simp

section

variable (h : Linked order index next)

include h

theorem key_unique {k : κ} {node node' : Nat} (hnode : (node, k) ∈ order)
    (hnode' : (node', k) ∈ order) : node = node' :=
  Option.some.inj (((h.get?_iff k node).mpr hnode).symm.trans ((h.get?_iff k node').mpr hnode'))

theorem nodup_keys : (order.map Prod.snd).Nodup := by
  refine h.nodup.of_map.map_on fun p hp q hq heq => ?_
  obtain ⟨node, k⟩ := p
  obtain ⟨node', k'⟩ := q
  obtain rfl : k = k' := heq
  rw [h.key_unique hp hq]

theorem mem_keys {k : κ} : k ∈ order.map Prod.snd ↔ index.contains k = true := by
  unfold OrdMap.contains
  rw [Option.isSome_iff_exists, mem_map]
  constructor
  · rintro ⟨⟨node, k'⟩, hmem, rfl⟩
    exact ⟨node, (h.get?_iff k' node).mpr hmem⟩
  · rintro ⟨node, hget⟩
    exact ⟨(node, k), (h.get?_iff k node).mp hget, rfl⟩

theorem mem_unlink {k : κ} {p : Nat × κ} : p ∈ unlink order index k ↔ p ∈ order ∧ p.2 ≠ k := by
  obtain ⟨node', k'⟩ := p
  unfold unlink
  split
  · next node hget =>
    have hnode := (h.get?_iff k node).mp hget
    rw [eraseP_eq_filter_key h.nodup, mem_filter, decide_eq_true_eq]
    refine and_congr_right fun hmem => not_congr ⟨?_, ?_⟩
    · rintro rfl
      exact congrArg Prod.snd (inj_on_of_nodup_map h.nodup hmem hnode rfl)
    · rintro rfl
      exact h.key_unique hmem hnode
  · next hget =>
    refine (and_iff_left_of_imp fun hmem heq => ?_).symm
    rw [← show k' = k from heq, (h.get?_iff k' node').mpr hmem] at hget
    cases hget

end

theorem unlink_sublist (order : List (Nat × κ)) (index : OrdMap κ Nat) (k : κ) :
    (unlink order index k).Sublist order := by
  unfold unlink
  split
  · exact eraseP_sublist
  · exact List.Sublist.refl _

theorem touch (h : Linked order index next) (k : κ) :
    Linked ((next, k) :: unlink order index k) (index.insert k next) (next + 1) := by
  have hsub := unlink_sublist order index k
  refine ⟨?_, fun p hp => ?_, fun k' node => ?_⟩
  · rw [map_cons, nodup_cons]
    refine ⟨fun hmem => ?_, (hsub.map Prod.fst).nodup h.nodup⟩
    obtain ⟨p, hp, heq⟩ := mem_map.mp hmem
    exact absurd heq (Nat.ne_of_lt (h.lt_next p (hsub.subset hp)))
  · rcases mem_cons.mp hp with rfl | hp
    · exact Nat.lt_succ_self _
    · exact Nat.lt_succ_of_lt (h.lt_next p (hsub.subset hp))
  · rw [OrdMap.get?_insert, mem_cons, h.mem_unlink, Prod.mk.injEq]
    split
    · next heq => simp [heq, eq_comm]
    · next hne => simp [hne, h.get?_iff]

theorem pop (h : Linked order index next) {node : Nat} {k : κ}
    (hlast : order.getLast? = some (node, k)) : Linked order.dropLast (index.erase k) next := by
  obtain ⟨front, rfl⟩ := getLast?_eq_some_iff.mp hlast
  have hnodup := h.nodup
  rw [dropLast_concat]
  rw [map_append, nodup_append] at hnodup
  refine ⟨hnodup.1, fun p hp => h.lt_next p (mem_append_left _ hp), fun k' node' => ?_⟩
  have hk : (node, k) ∈ front ++ [(node, k)] := mem_append_right _ (mem_singleton.mpr rfl)
  rw [OrdMap.get?_erase]
  split
  · -- the node of the key was the last one
    next heq =>
    subst heq
    refine iff_of_false nofun fun hmem => ?_
    obtain rfl := h.key_unique hk (mem_append_left _ hmem)
    exact hnodup.2.2 node (mem_map_of_mem hmem) node (by simp) rfl
  · next hne =>
    rw [h.get?_iff, mem_append, mem_singleton, Prod.mk.injEq]
    simp [hne]

end Linked

end Lru

end P2P
