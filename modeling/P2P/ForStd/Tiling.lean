import Mathlib.Algebra.GroupWithZero.Nat
import Mathlib.Data.List.Basic

/-!
# Ranges that tile an interval

Blocks of given widths lie one after the other on a line.
-/

namespace Tiling

/-- Ranges (start and length) that cover `lo` to `hi` one after the other; none is empty. -/
def Consecutive (lo hi : Nat) : List (Nat × Nat) → Prop
  | [] => lo = hi
  | r :: rs => r.1 = lo ∧ 0 < r.2 ∧ Consecutive (lo + r.2) hi rs

/-- The part of a block inside a window. -/
def cut (lo hi start width : Nat) : Option (Nat × Nat) :=
  if max lo start < min hi (start + width) then
    some (max lo start, min hi (start + width) - max lo start)
  else none

/-- The parts of blocks inside a window; the first block starts at `start`. -/
def cuts (lo hi : Nat) : List Nat → Nat → List (Nat × Nat)
  | [], _ => []
  | w :: ws, start => (cut lo hi start w).toList ++ cuts lo hi ws (start + w)

theorem consecutive_cuts_from {lo hi : Nat} (hle : lo ≤ hi) (ws : List Nat) (start : Nat)
    (hend : hi ≤ start + ws.sum) :
    Consecutive (min hi (max lo start)) hi (cuts lo hi ws start) := by
  induction ws generalizing start with
  | nil =>
    rw [List.sum_nil] at hend
    exact Nat.min_eq_left (by omega)
  | cons w ws ih =>
    rw [List.sum_cons] at hend
    have hrest := ih (start + w) (by omega)
    unfold cuts cut
    split
    · -- the block has a part in the window, and the next one starts where it ends
      refine ⟨by omega, by omega, ?_⟩
      have hnext : min hi (max lo start) + (min hi (start + w) - max lo start) =
          min hi (max lo (start + w)) := by omega
      rwa [← hnext] at hrest
    · have hsame : min hi (max lo (start + w)) = min hi (max lo start) := by omega
      rwa [hsame] at hrest

theorem consecutive_cuts {lo hi start : Nat} {ws : List Nat} (hstart : start ≤ lo) (hle : lo ≤ hi)
    (hend : hi ≤ start + ws.sum) : Consecutive lo hi (cuts lo hi ws start) := by
  have h := consecutive_cuts_from hle ws start hend
  rwa [Nat.max_eq_left hstart, Nat.min_eq_right hle] at h

theorem Consecutive.of_shift {c lo hi : Nat} {rs : List (Nat × Nat)}
    (h : Consecutive (c + lo) (c + hi) (rs.map fun r => (c + r.1, r.2))) :
    Consecutive lo hi rs := by
  induction rs generalizing lo with
  | nil => exact Nat.add_left_cancel h
  | cons r rs ih =>
    obtain ⟨hlo, hpos, hrest⟩ := h
    refine ⟨Nat.add_left_cancel hlo, hpos, ih ?_⟩
    rwa [← Nat.add_assoc]

end Tiling
