import Mathlib.Data.List.Basic
import Mathlib.Data.List.Induction
import Mathlib.Data.List.TakeWhile
import Mathlib.Tactic.IntervalCases

/-!
# Decimal numerals as bytes

`printNat` and `printInt` are what `std::format("{}", n)` produces, `digitsVal` is the value of a
digit string, and a numeral is canonical when printing produces it.
-/

namespace Decimal

open List

def isDigit (b : UInt8) : Bool := 48 ≤ b && b ≤ 57

def digitVal (b : UInt8) : Nat := b.toNat - 48

def digitByte (d : Nat) : UInt8 := UInt8.ofNat (48 + d)

/-- The value of a digit string, most significant digit first. -/
def digitsVal (ds : List UInt8) : Nat := ds.foldl (fun n b => 10 * n + digitVal b) 0

def printNat (n : Nat) : List UInt8 := (Nat.toDigits 10 n).map Char.toUInt8

/-- An integer in decimal, with a leading minus sign when it is negative. -/
def printInt (i : Int) : List UInt8 :=
  if i < 0 then 45 :: printNat i.natAbs else printNat i.natAbs

/-- A numeral without superfluous leading zeros. -/
def canonNat (ds : List UInt8) : Bool :=
  ds.all isDigit && !ds.isEmpty && (ds == [48] || ds.head? != some 48)

/-- A numeral, perhaps with a minus sign, without leading zeros and without a negative zero. -/
def canonInt : List UInt8 → Bool
  | 45 :: ds => canonNat ds && ds != [48]
  | ds => canonNat ds

/-- Where the library reads a number: behind blanks and a sign, up to what is no digit. -/
def signedDigits (isDigit : UInt8 → Bool) (text : List UInt8) : Bool × List UInt8 :=
  let text := text.dropWhile fun b => b == 32 || (9 ≤ b && b ≤ 13)
  let negative := text.head? == some 45
  (negative, (if negative || text.head? == some 43 then text.tail else text).takeWhile isDigit)

private theorem digitChar_toUInt8 {d : Nat} (h : d < 10) :
    (Nat.digitChar d).toUInt8 = digitByte d := by
  interval_cases d <;> rfl

private theorem isDigit_digitByte {d : Nat} (h : d < 10) : isDigit (digitByte d) := by
  interval_cases d <;> rfl

private theorem digitVal_digitByte {d : Nat} (h : d < 10) : digitVal (digitByte d) = d := by
  interval_cases d <;> rfl

theorem digitVal_lt {b : UInt8} (h : isDigit b) : digitVal b < 10 := by
  simp only [isDigit, Bool.and_eq_true, decide_eq_true_eq, UInt8.le_iff_toNat_le] at h
  have h2 : b.toNat ≤ 57 := h.2
  simp only [digitVal]
  omega

theorem digitByte_digitVal {b : UInt8} (h : isDigit b) : digitByte (digitVal b) = b := by
  simp only [isDigit, Bool.and_eq_true, decide_eq_true_eq, UInt8.le_iff_toNat_le] at h
  have h1 : 48 ≤ b.toNat := h.1
  rw [digitByte, digitVal, Nat.add_sub_cancel' h1, UInt8.ofNat_toNat]

theorem printNat_eq (n : Nat) :
    printNat n = if n < 10 then [digitByte n]
      else printNat (n / 10) ++ [digitByte (n % 10)] := by
  have h10 : n % 10 < 10 := Nat.mod_lt _ (by decide)
  rw [printNat, Nat.toDigits_eq_if (by decide)]
  split
  · next h => simp [digitChar_toUInt8 h]
  · simp [printNat, digitChar_toUInt8 h10]

theorem printNat_all_isDigit (n : Nat) : (printNat n).all isDigit := by
  induction n using Nat.strongRecOn with
  | ind n ih =>
    rw [printNat_eq]
    split
    · next h => simp [isDigit_digitByte h]
    · next h =>
      have hrec := ih (n / 10) (by omega)
      have hlast := isDigit_digitByte (Nat.mod_lt n (show 10 > 0 by decide))
      simp only [all_append, hrec, all_cons, hlast, all_nil, Bool.and_self]

theorem printNat_ne_nil (n : Nat) : printNat n ≠ [] := by
  rw [printNat_eq]
  split <;> simp

theorem isDigit_eq {d : UInt8} (hd : isDigit d = true) :
    (d == 32 || (9 ≤ d && d ≤ 13)) = false ∧ (d == 45) = false ∧ (d == 43) = false := by
  have hle : 48 ≤ d.toNat := by
    simp only [isDigit, Bool.and_eq_true, decide_eq_true_eq, UInt8.le_iff_toNat_le] at hd
    exact hd.1
  have hne : ∀ c : UInt8, c.toNat < 48 → (d == c) = false := by
    intro c hc
    rw [beq_eq_false_iff_ne]
    intro heq
    rw [heq] at hle
    omega
  have hbig : decide (d ≤ 13) = false := by
    rw [decide_eq_false_iff_not, UInt8.le_iff_toNat_le]
    intro h
    have h' : d.toNat ≤ 13 := h
    omega
  refine ⟨?_, hne 45 (by decide), hne 43 (by decide)⟩
  rw [hne 32 (by decide), hbig, Bool.and_false, Bool.or_false]

theorem signedDigits_printNat (n : Nat) :
    signedDigits isDigit (printNat n) = (false, printNat n) := by
  have hdigits := all_eq_true.mp (printNat_all_isDigit n)
  obtain ⟨d, ds, hprint⟩ := exists_cons_of_ne_nil (printNat_ne_nil n)
  rw [hprint] at hdigits ⊢
  obtain ⟨hspace, hminus, hplus⟩ := isDigit_eq (hdigits d (mem_cons_self ..))
  simp only [signedDigits, dropWhile_cons, hspace, Bool.false_eq_true, if_false, head?_cons,
    Option.some_beq_some, hminus, hplus, Bool.or_self, takeWhile_eq_self_iff.mpr hdigits]

theorem printNat_head? (n : Nat) (hn : 0 < n) : (printNat n).head? ≠ some 48 := by
  induction n using Nat.strongRecOn with
  | ind n ih =>
    rw [printNat_eq]
    split
    · next h => interval_cases n <;> decide
    · next h =>
      have hrec := ih (n / 10) (by omega) (by omega)
      rwa [head?_append_of_ne_nil _ (printNat_ne_nil _)]

theorem canonNat_printNat (n : Nat) : canonNat (printNat n) := by
  have hd := printNat_all_isDigit n
  have hne := printNat_ne_nil n
  rcases Nat.eq_zero_or_pos n with rfl | hn
  · decide
  · have hh := printNat_head? n hn
    simp [canonNat, hd, hne, hh]

theorem digitsVal_concat (ds : List UInt8) (b : UInt8) :
    digitsVal (ds ++ [b]) = 10 * digitsVal ds + digitVal b := by
  simp [digitsVal]

theorem digitsVal_printNat (n : Nat) : digitsVal (printNat n) = n := by
  induction n using Nat.strongRecOn with
  | ind n ih =>
    rw [printNat_eq]
    split
    · next h => simp [digitsVal, digitVal_digitByte h]
    · next h =>
      rw [digitsVal_concat, ih (n / 10) (by omega),
        digitVal_digitByte (Nat.mod_lt n (show 10 > 0 by decide))]
      omega

theorem printNat_injective : Function.Injective printNat :=
  Function.LeftInverse.injective digitsVal_printNat

theorem printNat_append_inj {m n : Nat} {d : UInt8} (hd : isDigit d = false) {x y : List UInt8}
    (h : printNat m ++ d :: x = printNat n ++ d :: y) : m = n ∧ x = y := by
  have htake : ∀ k z, (printNat k ++ d :: z).takeWhile isDigit = printNat k := by
    intro k z
    rw [takeWhile_append_of_pos fun b hb => all_eq_true.mp (printNat_all_isDigit k) b hb,
      takeWhile_cons_of_neg (by simp [hd]), append_nil]
  have hmn : printNat m = printNat n := by rw [← htake m x, h, htake n y]
  rw [hmn] at h
  exact ⟨printNat_injective hmn, (List.cons.inj (append_cancel_left h)).2⟩

theorem length_printNat_le (n : Nat) : (printNat n).length ≤ n + 1 := by
  induction n using Nat.strongRecOn with
  | ind n ih =>
    rw [printNat_eq]
    split
    · simp
    · next h =>
      have hrec := ih (n / 10) (by omega)
      rw [List.length_append, List.length_singleton]
      omega

theorem digitsVal_pos {ds : List UInt8} (hd : ds.all isDigit) (hne : ds ≠ [])
    (hh : ds.head? ≠ some 48) : 0 < digitsVal ds := by
  induction ds using List.reverseRecOn with
  | nil => exact absurd rfl hne
  | append_singleton ds b ih =>
    rw [digitsVal_concat]
    simp only [all_append, all_cons, all_nil, Bool.and_true, Bool.and_eq_true] at hd
    by_cases hds : ds = []
    · -- the only digit is not a zero
      subst hds
      have hb : b ≠ 48 := by simpa using hh
      by_contra hcon
      have hzero : digitVal b = 0 := by omega
      have := digitByte_digitVal hd.2
      rw [hzero] at this
      exact hb this.symm
    · rw [head?_append_of_ne_nil _ hds] at hh
      have := ih hd.1 hds hh
      omega

theorem printNat_digitsVal {ds : List UInt8} (h : canonNat ds) : printNat (digitsVal ds) = ds := by
  simp only [canonNat, Bool.and_eq_true, Bool.or_eq_true, beq_iff_eq, bne_iff_ne,
    Bool.not_eq_true', isEmpty_eq_false_iff] at h
  obtain ⟨⟨hd, hne⟩, hz | hh⟩ := h
  · subst hz; decide
  · -- the last digit is the remainder, and the digits before it are canonical too
    induction ds using List.reverseRecOn with
    | nil => exact absurd rfl hne
    | append_singleton ds b ih =>
      simp only [all_append, all_cons, all_nil, Bool.and_true, Bool.and_eq_true] at hd
      have hb := digitVal_lt hd.2
      rw [digitsVal_concat]
      by_cases hds : ds = []
      · -- one digit, which is printed as it is
        subst hds
        rw [printNat_eq, if_pos (by simpa [digitsVal] using hb)]
        simp [digitsVal, digitByte_digitVal hd.2]
      · rw [head?_append_of_ne_nil _ hds] at hh
        have hpos := digitsVal_pos hd.1 hds hh
        rw [printNat_eq, if_neg (by omega),
          show (10 * digitsVal ds + digitVal b) / 10 = digitsVal ds by omega,
          show (10 * digitsVal ds + digitVal b) % 10 = digitVal b by omega,
          ih hd.1 hds hh, digitByte_digitVal hd.2]

theorem printNat_digitsVal_iff (ds : List UInt8) : printNat (digitsVal ds) = ds ↔ canonNat ds :=
  ⟨fun h => h ▸ canonNat_printNat _, printNat_digitsVal⟩

end Decimal
