import P2P.ForStd.OrdMap

/-!
# Maps of maps

A map of maps without empty rows: a partial function of two keys.
-/

namespace P2P

open List OrdMap

/-- A map of maps without empty rows. -/
structure NestedMap (κ ι α : Type*) [LinearOrder κ] [LinearOrder ι] where
  rows : OrdMap κ (OrdMap ι α)
  occupied : ∀ e ∈ rows.entries, e.2.entries ≠ []

namespace NestedMap

variable {κ ι α : Type*} [LinearOrder κ] [LinearOrder ι]

def empty : NestedMap κ ι α := ⟨.empty, by simp⟩

variable (m : NestedMap κ ι α)

/-- The row of a key; the empty one when there is none. -/
def row (k : κ) : OrdMap ι α := (m.rows.get? k).getD .empty

def find? (k : κ) (i : ι) : Option α := (m.row k).get? i

/-- A row is replaced, or removed when the new one is empty. -/
def setRow (k : κ) (r : OrdMap ι α) : NestedMap κ ι α :=
  if h : r.entries = [] then
    ⟨m.rows.erase k, fun e he => m.occupied e ((m.rows.entries_erase_sublist k).subset he)⟩
  else
    ⟨m.rows.insert k r, fun e he => by
      obtain rfl | he := Assoc.mem_insert he
      · exact h
      · exact m.occupied e he⟩

/-- `m[k][i] = a` -/
def put (k : κ) (i : ι) (a : α) : NestedMap κ ι α := m.setRow k ((m.row k).insert i a)

/-- An entry is removed, with its row if it was the last one there. -/
def remove (k : κ) (i : ι) : NestedMap κ ι α :=
  match m.rows.get? k with
  | none => m
  | some r => m.setRow k (r.erase i)

/-- The entries with a property are removed, row by row. -/
def prune (stale : α → Bool) : NestedMap κ ι α :=
  m.rows.entries.foldl
    (fun m e => m.setRow e.1 ((e.2.entries.filter fun p => stale p.2).foldl
      (fun r p => r.erase p.1) e.2)) m

variable {m}

theorem row_setRow (k k' : κ) (r : OrdMap ι α) :
    (m.setRow k r).row k' = if k' = k then r else m.row k' := by
  unfold setRow row
  split
  · next hempty =>
    -- the row is gone, and a missing row reads as the empty one
    have hr : r = .empty := eq_empty fun i => by
      rw [get?, hempty]
      rfl
    rw [get?_erase]
    split
    · rw [hr]
      rfl
    · rfl
  · rw [get?_insert]
    split <;> rfl

theorem find?_put (k k' : κ) (i i' : ι) (a : α) :
    (m.put k i a).find? k' i' = if k' = k ∧ i' = i then some a else m.find? k' i' := by
  unfold put find?
  rw [row_setRow]
  by_cases hk : k' = k
  · subst hk
    simp [get?_insert]
  · simp [hk]

theorem find?_remove (k k' : κ) (i i' : ι) :
    (m.remove k i).find? k' i' = if k' = k ∧ i' = i then none else m.find? k' i' := by
  unfold remove
  split
  · next hnone =>
    split
    · next heq =>
      rw [find?, row, heq.1, hnone]
      rfl
    · rfl
  · next r hr =>
    unfold find?
    rw [row_setRow]
    by_cases hk : k' = k
    · subst hk
      simp [get?_erase, row, hr]
    · simp [hk]

theorem get?_foldl_erase_filter (r : OrdMap ι α) (stale : α → Bool) (i : ι) :
    ((r.entries.filter fun p => stale p.2).foldl (fun r p => r.erase p.1) r).get? i =
      (r.get? i).filter fun a => !stale a := by
  rw [get?_foldl_erase]
  cases ha : r.get? i with
  | none => simp
  | some a =>
    have hmem : i ∈ (r.entries.filter fun p => stale p.2).map Prod.fst ↔ stale a = true := by
      simp only [mem_map, mem_filter, Prod.exists, exists_and_right, exists_eq_right]
      constructor
      · rintro ⟨b, hb, hstale⟩
        rw [mem_entries, ha] at hb
        exact Option.some.inj hb ▸ hstale
      · intro hstale
        exact ⟨a, r.mem_entries.mpr ha, hstale⟩
    simp only [hmem, Option.filter_some]
    cases stale a <;> rfl

theorem find?_foldl_setRow (stale : α → Bool) (l : List (κ × OrdMap ι α))
    (hl : (l.map Prod.fst).Nodup) (hrow : ∀ e ∈ l, m.row e.1 = e.2) (k : κ) (i : ι) :
    (l.foldl (fun m e => m.setRow e.1 ((e.2.entries.filter fun p => stale p.2).foldl
      (fun r p => r.erase p.1) e.2)) m).find? k i =
      if k ∈ l.map Prod.fst then (m.find? k i).filter fun a => !stale a else m.find? k i := by
  induction l generalizing m with
  | nil => simp
  | cons e l ih =>
    obtain ⟨hnot, hl⟩ := nodup_cons.mp hl
    -- the rows that are still to come have not changed
    have hrest : ∀ e' ∈ l, e'.1 ≠ e.1 := fun e' he' heq =>
      hnot (heq ▸ mem_map_of_mem he')
    rw [foldl_cons, ih hl]
    · unfold find?
      rw [row_setRow]
      by_cases hk : k = e.1
      · subst hk
        have hk : m.row e.1 = e.2 := hrow e (mem_cons_self ..)
        simp only [if_neg hnot, if_pos, map_cons, mem_cons, true_or]
        rw [get?_foldl_erase_filter, hk]
      · simp only [hk, if_false, map_cons, mem_cons, false_or]
    · intro e' he'
      rw [row_setRow, if_neg (hrest e' he')]
      exact hrow e' (mem_cons_of_mem _ he')

theorem find?_prune (stale : α → Bool) (k : κ) (i : ι) :
    (m.prune stale).find? k i = (m.find? k i).filter fun a => !stale a := by
  have hrow : ∀ e ∈ m.rows.entries, m.row e.1 = e.2 := by
    intro e he
    rw [row, m.rows.mem_entries.mp he]
    rfl
  have hnodup : (m.rows.entries.map Prod.fst).Nodup := m.rows.nodup_keys
  rw [prune, find?_foldl_setRow stale _ hnodup hrow]
  split
  · rfl
  · next hnot =>
    -- there is no such row
    have hnone : m.rows.get? k = none := by
      apply Option.eq_none_iff_forall_ne_some.mpr
      intro r hr
      exact hnot (mem_map.mpr ⟨(k, r), m.rows.mem_entries.mpr hr, rfl⟩)
    have hfind : m.find? k i = none := by
      rw [find?, row, hnone]
      rfl
    rw [hfind]
    rfl

theorem mem_row {k : κ} {i : ι} {a : α} : (i, a) ∈ (m.row k).entries ↔ m.find? k i = some a :=
  (m.row k).mem_entries

end NestedMap

end P2P
