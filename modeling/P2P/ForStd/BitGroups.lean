import Mathlib.Algebra.Group.Nat.Defs
import P2P.ForStd.BitString

/-!
# Groups of bits

The bits of a number below a place, the highest one first.
-/

namespace P2P.BitString

open List

/-- The bits below a place, the highest one first. -/
def bitsBelow (f : Nat → Bool) : Nat → List Bool
  | 0 => []
  | w + 1 => f w :: bitsBelow f w

variable {f g : Nat → Bool} {n k w : Nat}

@[simp] theorem length_bitsBelow (f : Nat → Bool) (w : Nat) : (bitsBelow f w).length = w := by
  induction w with
  | zero => rfl
  | succ w ih => rw [bitsBelow, length_cons, ih]

theorem bitsBelow_congr (h : ∀ i < w, f i = g i) : bitsBelow f w = bitsBelow g w := by
  induction w with
  | zero => rfl
  | succ w ih => rw [bitsBelow, bitsBelow, h w (Nat.lt_succ_self w), ih fun i hi => h i (by omega)]

theorem bitsBelow_add (f : Nat → Bool) (k w : Nat) :
    bitsBelow f (k + w) = bitsBelow (fun i => f (i + w)) k ++ bitsBelow f w := by
  induction k with
  | zero => rw [Nat.zero_add]; rfl
  | succ k ih => rw [Nat.add_right_comm, bitsBelow, ih]; rfl

theorem bitsBelow_zero (n k : Nat) : bitsBelow (0#n).getLsbD k = replicate k false := by
  induction k with
  | zero => rfl
  | succ k ih => simp [bitsBelow, ih, replicate_succ]

theorem byteBits_eq (b : UInt8) : byteBits b = bitsBelow b.toBitVec.getLsbD 8 := rfl

/-- `k` bits come in from the right. -/
theorem bitsBelow_shiftIn (buffer v : BitVec n) (hn : w + k ≤ n)
    (hv : ∀ i, v.getLsbD (i + k) = false) :
    bitsBelow (buffer <<< k ||| v).getLsbD (w + k) =
      bitsBelow buffer.getLsbD w ++ bitsBelow v.getLsbD k := by
  rw [bitsBelow_add]
  congr 1
  · apply bitsBelow_congr
    intro i hi
    have hlt : i + k < n := by omega
    have hge : ¬ i + k < k := by omega
    rw [BitVec.getLsbD_or, BitVec.getLsbD_shiftLeft, hv]
    simp only [hlt, hge, decide_true, decide_false, Bool.not_false, Bool.and_true, Bool.true_and,
      Bool.or_false, Nat.add_sub_cancel]
  · apply bitsBelow_congr
    intro i hi
    rw [BitVec.getLsbD_or, BitVec.getLsbD_shiftLeft]
    simp [hi]

theorem getLsbD_ofNat_of_lt {v : Nat} (hk : v < 2 ^ k) (i : Nat) :
    (BitVec.ofNat n v).getLsbD (i + k) = false := by
  have hlt : v < 2 ^ (i + k) := hk.trans_le (Nat.pow_le_pow_right (by decide) (Nat.le_add_left k i))
  rw [BitVec.getLsbD_ofNat, Nat.testBit_lt_two_pow hlt, Bool.and_false]

theorem bitsBelow_ofNat (hn : k ≤ n) (v : Nat) :
    bitsBelow (BitVec.ofNat n v).getLsbD k = bitsBelow v.testBit k := by
  apply bitsBelow_congr
  intro i hi
  rw [BitVec.getLsbD_ofNat, decide_eq_true (by omega), Bool.true_and]

theorem getLsbD_sshiftRight_of_lt (x : BitVec n) {i : Nat} (h : i + k < n) :
    (x.sshiftRight k).getLsbD i = x.getLsbD (i + k) := by
  have hlt : k + i < n := by omega
  have hi : ¬ n ≤ i := by omega
  rw [BitVec.getLsbD_sshiftRight, if_pos hlt, decide_eq_false hi, Nat.add_comm k i]
  rfl

end P2P.BitString
