import Mathlib.Data.List.Basic

/-!
# Slices, overwriting and windows

`slice` and `overwrite` read and write a range of a file; `window` and `patch` are their
counterparts on a sequence indexed by `Nat`.
-/

namespace List

variable {α : Type}

/-- The `len` elements from position `off` on (fewer at the end of the list). -/
def slice (l : List α) (off len : Nat) : List α := (l.drop off).take len

/-- `l` with `d` written over it from position `off` on. -/
def overwrite (z : α) (l : List α) (off : Nat) (d : List α) : List α :=
  if d.isEmpty then l
  else l.take off ++ replicate (off - l.length) z ++ d ++ l.drop (off + d.length)

theorem length_slice (l : List α) (off len : Nat) :
    (l.slice off len).length = min len (l.length - off) := by
  simp [slice]

theorem getElem?_slice (l : List α) (off len i : Nat) :
    (l.slice off len)[i]? = if i < len then l[off + i]? else none := by
  simp only [slice, getElem?_take, getElem?_drop]

variable {off : Nat}

theorem slice_take (l : List α) {len n : Nat} (h : off + len ≤ n) :
    (l.take n).slice off len = l.slice off len := by
  rw [slice, slice, drop_take, take_take, Nat.min_eq_left (by omega)]

theorem slice_append_right (l₁ l₂ : List α) (off len : Nat) :
    (l₁ ++ l₂).slice (l₁.length + off) len = l₂.slice off len := by
  rw [slice, drop_append, slice, drop_eq_nil_of_le (by omega), nil_append, Nat.add_sub_cancel_left]

theorem slice_flatMap {β : Type*} {f : β → List α} {n : Nat} (hf : ∀ b, (f b).length = n)
    {l : List β} {i : Nat} {b : β} (h : l[i]? = some b) : (l.flatMap f).slice (n * i) n = f b := by
  induction l generalizing i with
  | nil => cases h
  | cons c l ih =>
    rw [flatMap_cons]
    cases i with
    | zero =>
      rw [getElem?_cons_zero, Option.some_inj] at h
      rw [Nat.mul_zero, slice, drop_zero, take_left' (hf c), h]
    | succ i =>
      rw [getElem?_cons_succ] at h
      rw [Nat.mul_succ, Nat.add_comm, ← hf c, slice_append_right, hf c]
      exact ih h

theorem getElem?_overwrite (z : α) {l : List α} (d : List α) (h : off ≤ l.length) (i : Nat) :
    (l.overwrite z off d)[i]? = if off ≤ i ∧ i < off + d.length then d[i - off]? else l[i]? := by
  unfold overwrite
  by_cases hd : d.isEmpty
  · have hlen : d.length = 0 := by simpa using hd
    rw [if_pos hd, if_neg (by omega)]
  · rw [if_neg hd]
    have htake : (l.take off).length = off := by rw [length_take]; omega
    rw [Nat.sub_eq_zero_of_le h, replicate_zero, append_nil, append_assoc]
    -- before, inside and behind the range that was written
    by_cases hlt : i < off
    · rw [getElem?_append_left (by omega), getElem?_take, if_pos hlt, if_neg (by omega)]
    · rw [getElem?_append_right (by omega), htake]
      by_cases hmid : i < off + d.length
      · rw [getElem?_append_left (by omega), if_pos (by omega)]
      · rw [getElem?_append_right (by omega), getElem?_drop, if_neg (by omega)]
        congr 1
        omega

theorem length_overwrite (z : α) {l : List α} (d : List α) (h : off + d.length ≤ l.length) :
    (l.overwrite z off d).length = l.length := by
  unfold overwrite
  split
  · rfl
  · simp only [length_append, length_take, length_replicate, length_drop]
    omega

theorem overwrite_start (z : α) (l d : List α) : l.overwrite z 0 d = d ++ l.drop d.length := by
  unfold overwrite
  split
  · next hd => rw [isEmpty_iff.mp hd, length_nil, drop_zero, nil_append]
  · rw [take_zero, Nat.zero_sub, replicate_zero, Nat.zero_add, nil_append, nil_append]

theorem overwrite_portion (z : α) (l : List α) {d : List α} {k : Nat} (h : k ≤ d.length) (n : Nat) :
    (l.overwrite z 0 (d.take k)).overwrite z k (d.slice k n) =
      l.overwrite z 0 (d.take (k + n)) := by
  have htake : (d.take k).length = k := length_take_of_le h
  have hlen : k ≤ (l.overwrite z 0 (d.take k)).length := by
    rw [overwrite_start, length_append, htake]
    omega
  apply ext_getElem?
  intro i
  rw [getElem?_overwrite z _ hlen, getElem?_overwrite z _ (Nat.zero_le _),
    getElem?_overwrite z _ (Nat.zero_le _), htake, length_slice, length_take, getElem?_slice]
  simp only [getElem?_take]
  by_cases hi : k ≤ i ∧ i < k + min n (d.length - k)
  · rw [if_pos hi, if_pos (by omega), if_pos (by omega), if_pos (by omega)]
    congr 1
    omega
  · rw [if_neg hi]
    by_cases hlt : i < k
    · rw [if_pos (by omega), if_pos (by omega), if_pos (by omega), if_pos (by omega)]
    · rw [if_neg (by omega), if_neg (by omega)]

end List

section Sequence

variable {α : Type}

/-- The `len` elements of a sequence from position `lo` on. -/
def window (A : Nat → α) (lo len : Nat) : List α := (List.range len).map fun i => A (lo + i)

/-- The sequence `A` with `d` written over it from position `lo` on. -/
def patch (A : Nat → α) (lo : Nat) (d : List α) : Nat → α := fun g =>
  if lo ≤ g then d[g - lo]?.getD (A g) else A g

@[simp] theorem length_window (A : Nat → α) (lo len : Nat) : (window A lo len).length = len := by
  simp [window]

theorem getElem?_window (A : Nat → α) (lo len i : Nat) :
    (window A lo len)[i]? = if i < len then some (A (lo + i)) else none := by
  unfold window
  rw [List.getElem?_map]
  by_cases hi : i < len
  · rw [List.getElem?_range hi, if_pos hi, Option.map_some]
  · rw [List.getElem?_eq_none (by simpa using hi), if_neg hi, Option.map_none]

variable {A : Nat → α} {lo len : Nat}

theorem window_congr {B : Nat → α} (h : ∀ g, lo ≤ g → g < lo + len → A g = B g) :
    window A lo len = window B lo len := by
  apply List.map_congr_left
  intro i hi
  rw [List.mem_range] at hi
  exact h _ (by omega) (by omega)

variable {d : List α}

theorem eq_window (h : ∀ i < d.length, d[i]? = some (A (lo + i))) : d = window A lo d.length := by
  apply List.ext_getElem?
  intro i
  rw [getElem?_window]
  by_cases hi : i < d.length
  · rw [if_pos hi, h i hi]
  · rw [if_neg hi, List.getElem?_eq_none (by omega)]

theorem slice_window (A : Nat → α) {a b : Nat} (h : a + b ≤ len) :
    (window A lo len).slice a b = window A (lo + a) b := by
  apply List.ext_getElem?
  intro i
  rw [List.getElem?_slice, getElem?_window, getElem?_window]
  by_cases hi : i < b
  · rw [if_pos hi, if_pos hi, if_pos (by omega), Nat.add_assoc]
  · rw [if_neg hi, if_neg hi]

variable {g : Nat}

theorem patch_of_mem {x : α} (hlo : lo ≤ g) (hx : d[g - lo]? = some x) : patch A lo d g = x := by
  unfold patch
  rw [if_pos hlo, hx, Option.getD_some]

theorem patch_of_not_mem (h : g < lo ∨ lo + d.length ≤ g) : patch A lo d g = A g := by
  unfold patch
  by_cases hlo : lo ≤ g
  · rw [if_pos hlo, List.getElem?_eq_none (by omega), Option.getD_none]
  · rw [if_neg hlo]

theorem some_patch (hlo : lo ≤ g) (hg : g < lo + d.length) :
    some (patch A lo d g) = d[g - lo]? := by
  obtain ⟨x, hx⟩ : ∃ x, d[g - lo]? = some x := ⟨_, List.getElem?_eq_getElem (by omega)⟩
  rw [patch_of_mem hlo hx, hx]

@[simp] theorem patch_nil (A : Nat → α) (lo : Nat) : patch A lo [] = A := by
  funext g
  exact patch_of_not_mem (by simp only [List.length_nil]; omega)

theorem window_patch_self (A : Nat → α) (lo : Nat) (d : List α) :
    window (patch A lo d) lo d.length = d := by
  refine (eq_window ?_).symm
  intro i hi
  rw [some_patch (by omega) (by omega), Nat.add_sub_cancel_left]

theorem window_patch_of_disjoint {lo' : Nat} (h : lo' + len ≤ lo ∨ lo + d.length ≤ lo') :
    window (patch A lo d) lo' len = window A lo' len := by
  apply window_congr
  intro g hlo hhi
  exact patch_of_not_mem (by omega)

theorem patch_append (A : Nat → α) (lo : Nat) (d e : List α) :
    patch (patch A lo d) (lo + d.length) e = patch A lo (d ++ e) := by
  funext g
  by_cases hlo : lo + d.length ≤ g
  · -- behind `d`, where only `e` counts
    have hidx : g - lo - d.length = g - (lo + d.length) := by omega
    unfold patch
    rw [if_pos hlo, if_pos (by omega), if_pos (by omega), List.getElem?_append_right (by omega),
      hidx, List.getElem?_eq_none (l := d) (by omega), Option.getD_none]
  · unfold patch
    rw [if_neg hlo]
    -- inside `d`, or before it
    by_cases hlo' : lo ≤ g
    · rw [if_pos hlo', if_pos hlo', List.getElem?_append_left (by omega)]
    · rw [if_neg hlo', if_neg hlo']

end Sequence
