import Mathlib.Order.Lattice
import Mathlib.Order.Lex
import Mathlib.Data.List.Lex
import Mathlib.Data.List.Pairwise

/-!
# Ordered maps as sorted association lists

An ordered map (`std::map`, `std::set`) is a list of pairs in strictly increasing key order.
-/

namespace Assoc

open List Assoc

variable {κ α : Type*} [LinearOrder κ]

def Sorted (l : List (κ × α)) : Prop := l.Pairwise (fun a b => a.1 < b.1)

/-- The value stored under `k` (`map::find`). -/
def find? : List (κ × α) → κ → Option α
  | [], _ => none
  | (k', a) :: l, k => if k = k' then some a else find? l k

/-- Insert unless the key is already there (`map::emplace`). -/
def emplace : List (κ × α) → κ → α → List (κ × α)
  | [], k, a => [(k, a)]
  | (k', a') :: l, k, a =>
    if k < k' then (k, a) :: (k', a') :: l
    else if k = k' then (k', a') :: l
    else (k', a') :: emplace l k a

/-- Insert or overwrite (`map[k] = a`). -/
def insert : List (κ × α) → κ → α → List (κ × α)
  | [], k, a => [(k, a)]
  | (k', a') :: l, k, a =>
    if k < k' then (k, a) :: (k', a') :: l
    else if k = k' then (k, a) :: l
    else (k', a') :: insert l k a

/-- Remove a key (`map::erase`). -/
def erase : List (κ × α) → κ → List (κ × α)
  | [], _ => []
  | (k', a') :: l, k => if k = k' then l else (k', a') :: erase l k

/-! ## Membership -/

variable {l : List (κ × α)} {k : κ} {a : α} {p : κ × α}

theorem mem_insert (h : p ∈ insert l k a) : p = (k, a) ∨ p ∈ l := by
  induction l with
  | nil => simpa [insert] using h
  | cons q l ih =>
    simp only [insert] at h
    split at h
    · simpa using h
    · split at h
      · exact (List.mem_cons.mp h).imp id (mem_cons_of_mem _)
      · rcases List.mem_cons.mp h with rfl | h'
        · exact .inr (List.mem_cons_self ..)
        · exact (ih h').imp id (mem_cons_of_mem _)

theorem erase_sublist (l : List (κ × α)) (k : κ) : (erase l k).Sublist l := by
  induction l with
  | nil => exact Sublist.slnil
  | cons q l ih =>
    simp only [erase]
    split
    · exact sublist_cons_self ..
    · exact ih.cons_cons q

/-! ## Order preservation -/

theorem length_le_erase (l : List (κ × α)) (k : κ) : l.length ≤ (erase l k).length + 1 := by
  induction l with
  | nil => exact Nat.zero_le _
  | cons p l ih =>
    rw [erase]
    split
    · exact Nat.le_refl _
    · exact Nat.succ_le_succ ih

theorem Sorted.lt_of_lt_head {q : κ × α} (hl : Sorted (q :: l)) (hk : k < q.1) :
    ∀ p ∈ q :: l, k < p.1 := by
  intro p hp
  rcases List.mem_cons.mp hp with rfl | hp'
  · exact hk
  · exact hk.trans ((pairwise_cons.mp hl).1 p hp')

theorem sorted_insert (k : κ) (a : α) (hl : Sorted l) : Sorted (insert l k a) := by
  induction l with
  | nil => simp [insert, Sorted]
  | cons q l ih =>
    obtain ⟨hq, hl'⟩ := pairwise_cons.mp hl
    simp only [insert]
    split
    · next hlt => exact pairwise_cons.mpr ⟨hl.lt_of_lt_head hlt, hl⟩
    · split
      · next heq =>
        subst heq
        exact pairwise_cons.mpr ⟨hq, hl'⟩
      · -- the new key goes somewhere behind the first one
        next hnlt hne =>
        refine pairwise_cons.mpr ⟨fun p hp => ?_, ih hl'⟩
        rcases mem_insert hp with rfl | hp'
        · exact lt_of_le_of_ne (not_lt.mp hnlt) (Ne.symm hne)
        · exact hq p hp'

theorem sorted_erase (k : κ) (hl : Sorted l) : Sorted (erase l k) :=
  hl.sublist (erase_sublist l k)

/-! ## Lookup -/

theorem find?_eq_none_of_ne (h : ∀ p ∈ l, k ≠ p.1) : find? l k = none := by
  induction l with
  | nil => rfl
  | cons q l ih =>
    simp only [find?, if_neg (h q (List.mem_cons_self ..))]
    exact ih fun p hp => h p (mem_cons_of_mem _ hp)

theorem find?_eq_some (hl : Sorted l) : find? l k = some a ↔ (k, a) ∈ l := by
  induction l with
  | nil => simp [find?]
  | cons q l ih =>
    obtain ⟨hq, hl'⟩ := pairwise_cons.mp hl
    obtain ⟨k', a'⟩ := q
    by_cases hk : k = k'
    · subst hk
      have hnot : (k, a) ∉ l := fun hm => lt_irrefl k (hq (k, a) hm)
      simp [find?, hnot, eq_comm]
    · simp [find?, hk, ih hl']

theorem find?_insert (hl : Sorted l) (k k' : κ) (a : α) :
    find? (insert l k a) k' = if k' = k then some a else find? l k' := by
  induction l with
  | nil => by_cases h : k' = k <;> simp [insert, find?, h]
  | cons q l ih =>
    obtain ⟨hq, hl'⟩ := pairwise_cons.mp hl
    obtain ⟨kq, aq⟩ := q
    simp only [insert]
    split
    · by_cases h : k' = k <;> simp [find?, h]
    · split
      · next heq =>
        subst heq
        by_cases h : k' = k <;> simp [find?, h]
      · next hne =>
        by_cases h : k' = kq
        · subst h
          simp [find?, Ne.symm hne]
        · simp only [find?, if_neg h, ih hl']

theorem emplace_eq_insert (k : κ) (a : α) (hl : Sorted l) :
    emplace l k a = insert l k ((find? l k).getD a) := by
  induction l with
  | nil => rfl
  | cons q l ih =>
    simp only [emplace, insert]
    split
    · next hlt =>
      -- a key below all others was not there before
      rw [find?_eq_none_of_ne fun p hp => (hl.lt_of_lt_head hlt p hp).ne, Option.getD_none]
    · split
      · next heq => simp [find?, heq]
      · next hne => simp [find?, hne, ih (pairwise_cons.mp hl).2]

theorem sorted_emplace (k : κ) (a : α) (hl : Sorted l) : Sorted (emplace l k a) := by
  rw [emplace_eq_insert k a hl]
  exact sorted_insert k _ hl

theorem find?_emplace (hl : Sorted l) (k k' : κ) (a : α) :
    find? (emplace l k a) k' = if k' = k then some ((find? l k).getD a) else find? l k' := by
  rw [emplace_eq_insert k a hl, find?_insert hl]

theorem find?_erase (hl : Sorted l) (k k' : κ) :
    find? (erase l k) k' = if k' = k then none else find? l k' := by
  induction l with
  | nil => simp [erase, find?]
  | cons q l ih =>
    obtain ⟨hq, hl'⟩ := pairwise_cons.mp hl
    obtain ⟨kq, aq⟩ := q
    simp only [erase]
    split
    · next heq =>
      subst heq
      by_cases h : k' = k
      · -- the keys behind the erased one are larger
        subst h
        simp [find?_eq_none_of_ne fun p hp => (hq p hp).ne]
      · simp [find?, h]
    · next hne =>
      by_cases h : k' = kq
      · subst h
        simp [find?, Ne.symm hne]
      · simp only [find?, if_neg h, ih hl']

/-! ## Counting -/

theorem erase_of_find?_eq_none (h : find? l k = none) : erase l k = l := by
  induction l with
  | nil => rfl
  | cons q l ih =>
    simp only [find?] at h
    simp only [erase]
    split at h
    · cases h
    · next hne => rw [if_neg hne, ih h]

theorem insert_perm (hl : Sorted l) (k : κ) (a : α) :
    (insert l k a).Perm ((k, a) :: erase l k) := by
  induction l with
  | nil => exact Perm.refl _
  | cons q l ih =>
    obtain ⟨hq, hl'⟩ := pairwise_cons.mp hl
    simp only [insert]
    split
    · next hlt =>
      have hnone := find?_eq_none_of_ne fun p hp => (hl.lt_of_lt_head hlt p hp).ne
      rw [erase_of_find?_eq_none hnone]
    · split
      · next heq => simp only [erase, if_pos heq, Perm.refl]
      · next hne =>
        simp only [erase, if_neg hne]
        exact ((ih hl').cons q).trans (Perm.swap ..)

theorem insert_insert (l : List (κ × α)) (k : κ) (a b : α) :
    insert (insert l k a) k b = insert l k b := by
  induction l with
  | nil => simp [insert]
  | cons p l ih =>
    obtain ⟨k', a'⟩ := p
    rcases lt_trichotomy k k' with hlt | rfl | hgt
    · simp [insert, hlt]
    · simp [insert]
    · simp [insert, not_lt_of_gt hgt, ne_of_gt hgt, ih]

theorem perm_erase (h : find? l k = some a) : l.Perm ((k, a) :: erase l k) := by
  induction l with
  | nil => cases h
  | cons q l ih =>
    simp only [find?] at h
    simp only [erase]
    split at h
    · next heq =>
      rw [if_pos heq, heq, ← Option.some.inj h]
    · next hne =>
      rw [if_neg hne]
      exact ((ih h).cons q).trans (Perm.swap ..)

/-! ## Building a map entry by entry -/

theorem insert_of_lt (a : α) (h : ∀ p ∈ l, p.1 < k) : insert l k a = l ++ [(k, a)] := by
  induction l with
  | nil => rfl
  | cons q l ih =>
    have hq : q.1 < k := h q (List.mem_cons_self ..)
    simp only [insert, if_neg (not_lt.mpr hq.le), if_neg hq.ne', cons_append]
    rw [ih fun p hp => h p (mem_cons_of_mem _ hp)]

theorem foldl_emplace_of_sorted (acc : List (κ × α)) (h : Sorted (acc ++ l)) :
    l.foldl (fun m p => emplace m p.1 p.2) acc = acc ++ l := by
  induction l generalizing acc with
  | nil => simp
  | cons p l ih =>
    have hlt : ∀ q ∈ acc, q.1 < p.1 := by
      intro q hq
      exact (pairwise_append.mp h).2.2 q hq p (List.mem_cons_self ..)
    rw [List.foldl_cons, emplace_eq_insert _ _ (pairwise_append.mp h).1, insert_of_lt _ hlt,
      find?_eq_none_of_ne fun q hq => (hlt q hq).ne', Option.getD_none, ih _ (by simpa using h)]
    simp

theorem foldl_insert_of_sorted {β : Type*} (f : β → α) (acc : List (κ × α)) {l : List (κ × β)}
    (h : Sorted (acc ++ l.map fun p => (p.1, f p.2))) :
    l.foldl (fun m p => insert m p.1 (f p.2)) acc = acc ++ l.map fun p => (p.1, f p.2) := by
  induction l generalizing acc with
  | nil => simp
  | cons p l ih =>
    have hlt : ∀ q ∈ acc, q.1 < p.1 := by
      intro q hq
      exact (pairwise_append.mp h).2.2 q hq (p.1, f p.2) (List.mem_cons_self ..)
    rw [List.foldl_cons, insert_of_lt _ hlt, ih _ (by simpa using h)]
    simp

theorem sorted_foldl_emplace {acc : List (κ × α)} (h : Sorted acc) :
    Sorted (l.foldl (fun m p => emplace m p.1 p.2) acc) := by
  induction l generalizing acc with
  | nil => exact h
  | cons p l ih => exact ih (sorted_emplace _ _ h)

theorem find?_foldl_emplace {acc : List (κ × α)} (h : Sorted acc) (k : κ) :
    find? (l.foldl (fun m p => emplace m p.1 p.2) acc) k = (find? acc k).or (find? l k) := by
  induction l generalizing acc with
  | nil => simp [find?]
  | cons p l ih =>
    rw [List.foldl_cons, ih (sorted_emplace _ _ h), find?_emplace h]
    by_cases hk : k = p.1
    · subst hk
      cases find? acc p.1 <;> simp [find?]
    · simp [find?, hk]

end Assoc

/-- An ordered map: an association list with strictly increasing keys. -/
structure OrdMap (κ α : Type*) [LinearOrder κ] where
  entries : List (κ × α)
  sorted : Assoc.Sorted entries

namespace OrdMap

variable {κ α : Type*} [LinearOrder κ]

def empty : OrdMap κ α := ⟨[], List.Pairwise.nil⟩

section

variable (m : OrdMap κ α) (k : κ)

def get? : Option α := Assoc.find? m.entries k

def contains : Bool := (m.get? k).isSome

def insert (a : α) : OrdMap κ α :=
  ⟨Assoc.insert m.entries k a, Assoc.sorted_insert k a m.sorted⟩

def emplace (a : α) : OrdMap κ α :=
  ⟨Assoc.emplace m.entries k a, Assoc.sorted_emplace k a m.sorted⟩

def erase : OrdMap κ α :=
  ⟨Assoc.erase m.entries k, Assoc.sorted_erase k m.sorted⟩

def modify (f : α → α) : OrdMap κ α :=
  match m.get? k with
  | some a => m.insert k (f a)
  | none => m

end

/-- Go over the entries: each one is changed or removed. -/
def filterMap {β : Type*} (m : OrdMap κ α) (f : κ → α → Option β) : OrdMap κ β :=
  ⟨m.entries.filterMap fun e => (f e.1 e.2).map (Prod.mk e.1), by
    apply List.Pairwise.filterMap _ _ m.sorted
    intro a b hab c hc d hd
    obtain ⟨_, _, rfl⟩ := Option.map_eq_some_iff.mp hc
    obtain ⟨_, _, rfl⟩ := Option.map_eq_some_iff.mp hd
    exact hab⟩

@[simp] theorem get?_empty (k : κ) : (empty : OrdMap κ α).get? k = none := rfl

@[simp] theorem entries_empty : (empty : OrdMap κ α).entries = [] := rfl

variable {m : OrdMap κ α}

theorem ext {m' : OrdMap κ α} (h : m.entries = m'.entries) : m = m' := by
  cases m
  cases m'
  cases h
  rfl

variable {β : Type*}

theorem sorted_map (m : OrdMap κ α) (f : α → β) :
    Assoc.Sorted (m.entries.map fun p => (p.1, f p.2)) :=
  List.pairwise_map.mpr m.sorted

def mapValues {β : Type*} (m : OrdMap κ α) (f : α → β) : OrdMap κ β :=
  ⟨m.entries.map fun p => (p.1, f p.2), m.sorted_map f⟩

theorem foldl_insert_entries (m : OrdMap κ α) :
    m.entries.foldl (fun m' p => m'.insert p.1 p.2) empty = m := by
  have hentries : ∀ (l : List (κ × α)) (m' : OrdMap κ α),
      (l.foldl (fun m' p => m'.insert p.1 p.2) m').entries =
        l.foldl (fun m' p => Assoc.insert m' p.1 p.2) m'.entries := by
    intro l
    induction l with
    | nil => exact fun _ => rfl
    | cons p l ih => exact fun m' => ih (m'.insert p.1 p.2)
  have hsorted := Assoc.foldl_insert_of_sorted id [] (m.sorted_map id)
  apply ext
  rw [hentries]
  simpa using hsorted

theorem foldl_insert_mapValues (m : OrdMap κ α) (f : α → β) :
    m.entries.foldl (fun m' p => m'.insert p.1 (f p.2)) empty = m.mapValues f := by
  rw [← foldl_insert_entries (m.mapValues f), mapValues, List.foldl_map]

theorem get?_insert (m : OrdMap κ α) (k k' : κ) (a : α) :
    (m.insert k a).get? k' = if k' = k then some a else m.get? k' :=
  Assoc.find?_insert m.sorted k k' a

variable {k : κ} {a : α}

theorem get?_insert_eq_some {k' : κ} {b : α} (h : (m.insert k a).get? k' = some b) :
    (k' = k ∧ b = a) ∨ (k' ≠ k ∧ m.get? k' = some b) := by
  rw [get?_insert] at h
  split at h
  · next heq => exact .inl ⟨heq, (Option.some.inj h).symm⟩
  · next hne => exact .inr ⟨hne, h⟩

theorem get?_emplace (m : OrdMap κ α) (k k' : κ) (a : α) :
    (m.emplace k a).get? k' = if k' = k then some ((m.get? k).getD a) else m.get? k' :=
  Assoc.find?_emplace m.sorted k k' a

theorem get?_erase (m : OrdMap κ α) (k k' : κ) :
    (m.erase k).get? k' = if k' = k then none else m.get? k' :=
  Assoc.find?_erase m.sorted k k'

theorem get?_erase_eq_some {k' : κ} {b : α} (h : (m.erase k).get? k' = some b) :
    k' ≠ k ∧ m.get? k' = some b := by
  rw [get?_erase] at h
  split at h
  · cases h
  · next hne => exact ⟨hne, h⟩

section

variable (m : OrdMap κ α) (k k' : κ)

theorem get?_modify (f : α → α) :
    (m.modify k f).get? k' = if k' = k then (m.get? k).map f else m.get? k' := by
  unfold modify
  cases h : m.get? k with
  | none =>
    by_cases heq : k' = k
    · rw [if_pos heq, heq]
      exact h
    · rw [if_neg heq]
  | some a => exact get?_insert m k k' (f a)

theorem contains_insert (a : α) :
    (m.insert k a).contains k' = (decide (k' = k) || m.contains k') := by
  unfold contains
  rw [get?_insert]
  split
  · next heq => simp [heq]
  · next hne => simp [hne]

theorem contains_erase : (m.erase k).contains k' = (decide (k' ≠ k) && m.contains k') := by
  unfold contains
  rw [get?_erase]
  split
  · next heq => simp [heq]
  · next hne => simp [hne]

end

theorem erase_of_get?_eq_none (h : m.get? k = none) : m.erase k = m := by
  cases m with
  | mk entries sorted =>
    have hsame : Assoc.erase entries k = entries := Assoc.erase_of_find?_eq_none h
    simp only [erase, hsame]

theorem get?_foldl_insert_of_not_mem {l : List (κ × α)} (h : k ∉ l.map Prod.fst) (m : OrdMap κ α) :
    (l.foldl (fun m e => m.insert e.1 e.2) m).get? k = m.get? k := by
  induction l generalizing m with
  | nil => rfl
  | cons e l ih =>
    rw [List.map_cons, List.mem_cons, not_or] at h
    rw [List.foldl_cons, ih h.2, get?_insert, if_neg h.1]

theorem get?_foldl_insert_of_mem {l : List (κ × α)} (hl : (l.map Prod.fst).Nodup) (h : (k, a) ∈ l)
    (m : OrdMap κ α) : (l.foldl (fun m e => m.insert e.1 e.2) m).get? k = some a := by
  induction l generalizing m with
  | nil => exact absurd h List.not_mem_nil
  | cons e l ih =>
    rw [List.map_cons, List.nodup_cons] at hl
    rw [List.foldl_cons]
    cases List.mem_cons.mp h with
    | inl heq =>
      subst heq
      rw [get?_foldl_insert_of_not_mem hl.1, get?_insert, if_pos rfl]
    | inr hmem => exact ih hl.2 hmem _

theorem get?_foldl_erase (l : List (κ × β)) (m : OrdMap κ α) (k : κ) :
    (l.foldl (fun m e => m.erase e.1) m).get? k =
      if k ∈ l.map Prod.fst then none else m.get? k := by
  induction l generalizing m with
  | nil => simp
  | cons e l ih =>
    rw [List.foldl_cons, ih, get?_erase, List.map_cons]
    by_cases h : k = e.1
    · simp [h]
    · simp only [List.mem_cons, h, false_or, if_false]

theorem entries_erase_sublist (m : OrdMap κ α) (k : κ) : (m.erase k).entries.Sublist m.entries :=
  Assoc.erase_sublist m.entries k

theorem entries_insert_perm (m : OrdMap κ α) (k : κ) (a : α) :
    (m.insert k a).entries.Perm ((k, a) :: (m.erase k).entries) :=
  Assoc.insert_perm m.sorted k a

theorem length_le_erase (m : OrdMap κ α) (k : κ) :
    m.entries.length ≤ (m.erase k).entries.length + 1 :=
  Assoc.length_le_erase m.entries k

theorem length_erase (h : m.get? k = some a) : (m.erase k).entries.length + 1 = m.entries.length :=
  (Assoc.perm_erase h).length_eq.symm

section

variable (m : OrdMap κ α) (k : κ)

theorem countP_insert (a : α) (p : κ × α → Bool) :
    (m.insert k a).entries.countP p = (m.erase k).entries.countP p + if p (k, a) then 1 else 0 := by
  rw [(m.entries_insert_perm k a).countP_eq p, List.countP_cons]

theorem insert_insert (a b : α) : (m.insert k a).insert k b = m.insert k b := by
  simp only [insert, Assoc.insert_insert]

theorem length_insert (a : α) : (m.insert k a).entries.length = (m.erase k).entries.length + 1 :=
  (m.entries_insert_perm k a).length_eq

theorem length_emplace_le (a : α) : (m.emplace k a).entries.length ≤ m.entries.length + 1 := by
  show (Assoc.emplace m.entries k a).length ≤ _
  rw [Assoc.emplace_eq_insert k a m.sorted, (Assoc.insert_perm m.sorted k _).length_eq]
  exact Nat.succ_le_succ (m.entries_erase_sublist k).length_le

end

theorem eq_empty (h : ∀ k, m.get? k = none) : m = empty := by
  cases m with
  | mk entries sorted =>
    cases entries with
    | nil => rfl
    | cons p l =>
      have hp := (Assoc.find?_eq_some sorted).mpr (List.mem_cons_self (a := p) (l := l))
      exact absurd ((h p.1).symm.trans hp) (by simp)

theorem nodup_keys (m : OrdMap κ α) : (m.entries.map Prod.fst).Nodup :=
  List.pairwise_map.mpr (m.sorted.imp fun h => ne_of_lt h)

theorem mem_entries (m : OrdMap κ α) : (k, a) ∈ m.entries ↔ m.get? k = some a :=
  (Assoc.find?_eq_some m.sorted).symm

theorem get?_filterMap (m : OrdMap κ α) (f : κ → α → Option β) (k : κ) :
    (m.filterMap f).get? k = (m.get? k).bind (f k) := by
  apply Option.ext
  intro b
  rw [← mem_entries, Option.bind_eq_some_iff]
  constructor
  · intro h
    obtain ⟨⟨k', a⟩, ha, hmap⟩ := List.mem_filterMap.mp h
    obtain ⟨b', hf, heq⟩ := Option.map_eq_some_iff.mp hmap
    cases heq
    exact ⟨a, m.mem_entries.mp ha, hf⟩
  · intro h
    obtain ⟨a, ha, hf⟩ := h
    apply List.mem_filterMap.mpr
    exact ⟨(k, a), m.mem_entries.mpr ha, by rw [hf, Option.map_some]⟩

end OrdMap
