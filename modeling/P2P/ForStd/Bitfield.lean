import P2P.ForStd.Bytes
import Mathlib.Data.Nat.Bitwise

/-!
# Bits packed into bytes

A set of numbers as a string of bytes with one bit for each number, the most significant
bit of a byte first.
-/

namespace P2P

open List

namespace Bitfield

/-- The bit of `i`; bits behind the end are not set. -/
def get (bits : Bytes) (i : Nat) : Bool :=
  match bits[i / 8]? with
  | none => false
  | some byte => byte.toNat.testBit (7 - i % 8)

/-- Set the bit of `i`. Bits behind the end are left alone. -/
def set (bits : Bytes) (i : Nat) : Bytes :=
  match bits[i / 8]? with
  | none => bits
  | some byte => List.set bits (i / 8) (UInt8.ofNat (byte.toNat ||| 1 <<< (7 - i % 8)))

@[simp] theorem length_set (bits : Bytes) (i : Nat) : (set bits i).length = bits.length := by
  unfold set
  split
  · rfl
  · exact List.length_set

@[simp] theorem get_nil (i : Nat) : get [] i = false := rfl

theorem testBit_or_shiftLeft (byte : UInt8) {k : Nat} (hk : k < 8) (j : Nat) :
    (UInt8.ofNat (byte.toNat ||| 1 <<< k)).toNat.testBit j =
      (byte.toNat.testBit j || decide (k = j)) := by
  have hlt : byte.toNat ||| 1 <<< k < 2 ^ 8 := by
    refine Nat.or_lt_two_pow byte.toNat_lt ?_
    rw [Nat.one_shiftLeft]
    exact Nat.pow_lt_pow_right (by decide) hk
  rw [UInt8.toNat_ofNat', Nat.mod_eq_of_lt hlt, Nat.testBit_or, Nat.one_shiftLeft,
    Nat.testBit_two_pow]

theorem get_set {bits : Bytes} {i : Nat} (hi : i / 8 < bits.length) (j : Nat) :
    get (set bits i) j = (get bits j || decide (i = j)) := by
  unfold get set
  rw [getElem?_eq_getElem hi]
  by_cases hbyte : i / 8 = j / 8
  · rw [← hbyte, getElem?_set_self hi, getElem?_eq_getElem hi]
    show (UInt8.ofNat _).toNat.testBit _ = _
    rw [testBit_or_shiftLeft _ (by omega)]
    -- in one byte the bits have different places
    congr 1
    rw [decide_eq_decide]
    omega
  · rw [getElem?_set_ne hbyte]
    have hne : i ≠ j := fun heq => hbyte (by rw [heq])
    simp [hne]

theorem get_foldl_set (l : List Nat) {bits : Bytes} (hl : ∀ i ∈ l, i / 8 < bits.length) (j : Nat) :
    get (l.foldl set bits) j = (get bits j || decide (j ∈ l)) := by
  induction l generalizing bits with
  | nil => simp
  | cons i l ih =>
    have hi := hl i (mem_cons_self ..)
    have hrest : ∀ k ∈ l, k / 8 < (set bits i).length := by
      intro k hk
      rw [length_set]
      exact hl k (mem_cons_of_mem _ hk)
    rw [foldl_cons, ih hrest, get_set hi]
    simp [Bool.or_assoc, eq_comm]

theorem length_foldl_set (l : List Nat) (bits : Bytes) :
    (l.foldl set bits).length = bits.length := by
  induction l generalizing bits with
  | nil => rfl
  | cons i l ih => rw [foldl_cons, ih, length_set]

theorem get_replicate_zero (n i : Nat) : get (replicate n 0) i = false := by
  unfold get
  split
  · rfl
  · next byte hbyte =>
    rw [eq_of_mem_replicate (mem_of_getElem? hbyte)]
    exact Nat.zero_testBit _

/-- One bit for each number below `n`, set for those that satisfy `p`. -/
def pack (n : Nat) (p : Nat → Bool) : Bytes :=
  ((List.range n).filter p).foldl set (List.replicate ((n + 7) / 8) 0)

@[simp] theorem length_pack (n : Nat) (p : Nat → Bool) : (pack n p).length = (n + 7) / 8 := by
  rw [pack, length_foldl_set, length_replicate]

theorem get_pack {n i : Nat} (p : Nat → Bool) (hi : i < n) : get (pack n p) i = p i := by
  have hroom : ∀ j ∈ (range n).filter p, j / 8 < (replicate ((n + 7) / 8) (0 : UInt8)).length := by
    intro j hj
    have hlt := mem_range.mp (mem_filter.mp hj).1
    rw [length_replicate]
    omega
  rw [pack, get_foldl_set _ hroom, get_replicate_zero, Bool.false_or]
  simp [hi]

end Bitfield

end P2P
