import P2P.ForStd.Bytes

/-!
# Byte strings as bit strings

The bits of a byte string, the most significant bit of a byte first, and the common prefix of two.
-/

namespace P2P

open List

namespace BitString

/-- The bits of a byte, the most significant one first. -/
def byteBits (b : UInt8) : List Bool := (List.range 8).map fun j => b.toNat.testBit (7 - j)

def bits (s : Bytes) : List Bool := s.flatMap byteBits

def commonPrefixLength {α : Type*} [DecidableEq α] : List α → List α → Nat
  | a :: as, b :: bs => if a = b then commonPrefixLength as bs + 1 else 0
  | _, _ => 0

def leadingZeros (b : UInt8) : Nat := (byteBits b).findIdx id

theorem length_byteBits (b : UInt8) : (byteBits b).length = 8 := by
  simp [byteBits]

theorem length_bits (s : Bytes) : (bits s).length = 8 * s.length := by
  induction s with
  | nil => rfl
  | cons b s ih =>
    show (byteBits b ++ bits s).length = _
    rw [length_append, length_byteBits, ih, length_cons]
    omega

theorem byteBits_xor (a b : UInt8) :
    byteBits (a ^^^ b) = zipWith (· ^^ ·) (byteBits a) (byteBits b) := by
  apply ext_getElem
  · simp [length_byteBits]
  · intro j hj _
    simp [byteBits, Nat.testBit_xor]

theorem bits_zipWith_xor {s t : Bytes} (h : s.length = t.length) :
    bits (zipWith (· ^^^ ·) s t) = zipWith (· ^^ ·) (bits s) (bits t) := by
  induction s generalizing t with
  | nil => simp [bits]
  | cons a s ih =>
    cases t with
    | nil => simp [bits]
    | cons b t =>
      have hlen : (byteBits a).length = (byteBits b).length := by simp [length_byteBits]
      show byteBits (a ^^^ b) ++ bits (zipWith (· ^^^ ·) s t) =
        zipWith (· ^^ ·) (byteBits a ++ bits s) (byteBits b ++ bits t)
      rw [zipWith_append hlen, byteBits_xor, ih (by simpa using h)]

theorem commonPrefixLength_eq_findIdx (as bs : List Bool) :
    commonPrefixLength as bs = (zipWith (· ^^ ·) as bs).findIdx id := by
  induction as generalizing bs with
  | nil => simp [commonPrefixLength]
  | cons a as ih =>
    cases bs with
    | nil => simp [commonPrefixLength]
    | cons b bs =>
      rw [commonPrefixLength, zipWith_cons_cons, findIdx_cons, ih]
      by_cases hab : a = b
      · subst hab
        simp
      · have hxor : (a ^^ b) = true := by
          cases a <;> cases b <;> simp_all
        simp [hab, hxor]

theorem commonPrefixLength_bits {s t : Bytes} (h : s.length = t.length) :
    commonPrefixLength (bits s) (bits t) = (bits (zipWith (· ^^^ ·) s t)).findIdx id := by
  rw [commonPrefixLength_eq_findIdx, bits_zipWith_xor h]

theorem leadingZeros_lt {b : UInt8} (h : b ≠ 0) : leadingZeros b < 8 := by
  have hall : ∀ n : Fin 256, UInt8.ofFin n ≠ 0 → leadingZeros (UInt8.ofFin n) < 8 := by
    decide +kernel
  exact hall b.toFin h

theorem findIdx_bits_cons (b : UInt8) (s : Bytes) :
    (bits (b :: s)).findIdx id = if b = 0 then 8 + (bits s).findIdx id else leadingZeros b := by
  show (byteBits b ++ bits s).findIdx id = _
  rw [findIdx_append, length_byteBits]
  by_cases hb : b = 0
  · have hzero : (byteBits 0).findIdx id = 8 := by decide
    rw [if_pos hb, hb, hzero, if_neg (by omega)]
    omega
  · have hlt : (byteBits b).findIdx id < 8 := leadingZeros_lt hb
    rw [if_neg hb, if_pos hlt, leadingZeros]

theorem byteBits_injective {a b : UInt8} (h : byteBits a = byteBits b) : a = b := by
  apply UInt8.toNat_inj.mp
  apply Nat.eq_of_testBit_eq
  intro i
  by_cases hi : i < 8
  · -- bit `i` stands at place `7 - i`
    have hget := congrArg (fun l => l[7 - i]?) h
    have hlt : 7 - i < 8 := by omega
    have hback : 7 - (7 - i) = i := by omega
    simpa [byteBits, hlt, hback] using hget
  · have ha : a.toNat < 2 ^ i :=
      Nat.lt_of_lt_of_le a.toNat_lt (Nat.pow_le_pow_right (by decide) (by omega))
    have hb : b.toNat < 2 ^ i :=
      Nat.lt_of_lt_of_le b.toNat_lt (Nat.pow_le_pow_right (by decide) (by omega))
    rw [Nat.testBit_lt_two_pow ha, Nat.testBit_lt_two_pow hb]

theorem bits_injective {s t : Bytes} (h : bits s = bits t) : s = t := by
  induction s generalizing t with
  | nil =>
    have hlen := congrArg length h
    rw [length_bits, length_bits] at hlen
    cases t with
    | nil => rfl
    | cons b t =>
      simp at hlen
  | cons a s ih =>
    cases t with
    | nil =>
      have hlen := congrArg length h
      rw [length_bits, length_bits] at hlen
      simp at hlen
    | cons b t =>
      have hsplit : byteBits a = byteBits b ∧ bits s = bits t :=
        append_inj h (by simp [length_byteBits])
      rw [byteBits_injective hsplit.1, ih hsplit.2]

theorem commonPrefixLength_lt {as bs : List Bool} (hlen : as.length = bs.length) (hne : as ≠ bs) :
    commonPrefixLength as bs < as.length := by
  induction as generalizing bs with
  | nil =>
    cases bs with
    | nil => exact absurd rfl hne
    | cons b bs => simp at hlen
  | cons a as ih =>
    cases bs with
    | nil => simp at hlen
    | cons b bs =>
      rw [commonPrefixLength]
      split
      · rename_i heq
        have hrest : as ≠ bs := fun h => hne (by rw [heq, h])
        have hlt := ih (by simpa using hlen) hrest
        rw [length_cons]
        omega
      · simp

end BitString

end P2P
