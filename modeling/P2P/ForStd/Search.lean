import Mathlib.Data.List.Infix

/-!
# The first occurrence of a pattern

A search that sees the data part by part finds nothing until the whole pattern has arrived, and then
finds it where it was put, unless it occurs earlier.
-/

namespace P2P

open List

variable {α : Type*} {pat pad u : List α}

/-- The pattern does not occur before the place it is put at. -/
def FirstAt (pat pad : List α) : Prop := ∀ i < pad.length, ¬pat <+: (pad ++ pat).drop i

theorem firstAt_nil (pat : List α) : FirstAt pat [] := fun i hi => by simp at hi

theorem FirstAt.tail {a : α} (h : FirstAt pat (a :: pad)) : FirstAt pat pad :=
  fun i hi => h (i + 1) (by simpa using hi)

variable [DecidableEq α]

/-- Where the pattern first occurs (`std::search`, when the result is not the end). -/
def search (pat : List α) : List α → Option Nat
  | [] => none
  | a :: l => if pat <+: a :: l then some 0 else (search pat l).map (· + 1)

theorem search_of_length_lt (h : u.length < pat.length) : search pat u = none := by
  induction u with
  | nil => rfl
  | cons a u ih =>
    have hnot : ¬pat <+: a :: u := fun hp => by
      have hle := hp.length_le
      omega
    rw [search, if_neg hnot, ih (by simp only [length_cons] at h; omega)]
    rfl

theorem search_of_isPrefix (h : FirstAt pat pad) (hu : u <+: pad ++ pat)
    (hlt : u.length < pad.length + pat.length) : search pat u = none := by
  induction pad generalizing u with
  | nil => exact search_of_length_lt (by simpa using hlt)
  | cons a pad ih =>
    cases u with
    | nil => rfl
    | cons b u =>
      have hnot : ¬pat <+: b :: u := fun hp => h 0 (by simp) (hp.trans hu)
      rw [cons_append, cons_prefix_cons] at hu
      rw [search, if_neg hnot, ih h.tail hu.2 (by simp only [length_cons] at hlt; omega)]
      rfl

/-- What has been found does not depend on what comes behind it. -/
theorem search_take {off : Nat} (hpat : pat ≠ []) (h : search pat u = some off) :
    off + pat.length ≤ u.length ∧
      ∀ rest, search pat (u.take (off + pat.length) ++ rest) = some off := by
  induction u generalizing off with
  | nil => cases h
  | cons a u ih =>
    unfold search at h
    split at h
    · next hp =>
      cases h
      refine ⟨by simpa using hp.length_le, fun rest => ?_⟩
      obtain ⟨b, p, rfl⟩ := exists_cons_of_ne_nil hpat
      rw [Nat.zero_add, ← prefix_iff_eq_take.mp hp]
      exact if_pos (prefix_append ..)
    · next hp =>
      obtain ⟨k, hk, rfl⟩ := Option.map_eq_some_iff.mp h
      obtain ⟨hle, hrest⟩ := ih hk
      refine ⟨by rw [length_cons]; omega, fun rest => ?_⟩
      have hnot : ¬ pat <+: a :: (u.take (k + pat.length) ++ rest) := fun hp' => by
        have hpre : a :: u.take (k + pat.length) <+: a :: (u.take (k + pat.length) ++ rest) :=
          prefix_append (a :: u.take (k + pat.length)) rest
        have hlen : pat.length ≤ (a :: u.take (k + pat.length)).length := by
          simp
          omega
        exact hp ((prefix_of_prefix_length_le hp' hpre hlen).trans
          ((prefix_cons_inj a).mpr ( take_prefix ..)))
      rw [Nat.add_right_comm, take_succ_cons, cons_append, search, if_neg hnot, hrest]
      rfl

theorem search_append (h : FirstAt pat pad) (hpat : pat ≠ []) (rest : List α) :
    search pat (pad ++ pat ++ rest) = some pad.length := by
  induction pad with
  | nil =>
    obtain ⟨a, l, rfl⟩ := exists_cons_of_ne_nil hpat
    exact if_pos (prefix_append ..)
  | cons a pad ih =>
    have hnot : ¬pat <+: a :: pad ++ pat ++ rest := fun hp => by
      have hpre : a :: pad ++ pat <+: a :: pad ++ pat ++ rest := prefix_append ..
      exact h 0 (by simp) (prefix_of_prefix_length_le hp hpre (by simp; omega))
    have hstep : search pat (a :: pad ++ pat ++ rest) =
        (search pat (pad ++ pat ++ rest)).map (· + 1) := if_neg hnot
    rw [hstep, ih h.tail]
    rfl

end P2P
