import P2P.Native.Bencode

/-!
# What `from_chars` reads

`fromChars` reads an optional minus sign and the longest run of digits.
-/

namespace P2P.Bencode

open Decimal List

def numeral (neg : Bool) (ds : Bytes) : Bytes := if neg then 45 :: ds else ds

def isNumeralByte (b : UInt8) : Bool := b == 45 || isDigit b

private theorem not_isDigit_minus : isDigit 45 = false := rfl

variable {ds : Bytes}

private theorem head?_ne_minus (hd : ds.all isDigit) : ds.head? ≠ some 45 := by
  cases ds with
  | nil => simp
  | cons b ds =>
    intro h
    have hb : b = 45 := by simpa using h
    subst hb
    simp [not_isDigit_minus] at hd

variable {s : Bytes} {i : Int64} {n : Nat}

private theorem fromCharsDigits_ok {neg : Bool} (h : fromCharsDigits neg s = .ok (i, n)) :
    ∃ ds rest, s = ds ++ rest ∧ ds ≠ [] ∧ ds.all isDigit ∧
      i.toInt = signedVal neg ds ∧ n = ds.length := by
  simp only [fromCharsDigits] at h
  split at h
  · cases h
  · next hne =>
    split at h
    · cases h
    · next hrange =>
      simp only [Except.ok.injEq, Prod.mk.injEq] at h
      obtain ⟨rfl, rfl⟩ := h
      exact ⟨_, s.dropWhile isDigit, by simp, hne, by simp [all_takeWhile],
        Int64.toInt_ofInt_of_le (by omega) (by omega), rfl⟩

theorem fromChars_ok (h : fromChars s = .ok (i, n)) :
    ∃ neg ds rest, s = numeral neg ds ++ rest ∧ ds ≠ [] ∧ ds.all isDigit ∧
      i.toInt = signedVal neg ds ∧ n = (numeral neg ds).length := by
  simp only [fromChars] at h
  split at h
  · -- a minus sign: it counts as one of the bytes read
    next hminus =>
    cases hfc : fromCharsDigits true s.tail with
    | error e => rw [hfc] at h; exact nomatch h
    | ok p =>
      obtain ⟨i', n'⟩ := p
      simp only [hfc, Except.map, Except.ok.injEq, Prod.mk.injEq] at h
      obtain ⟨rfl, rfl⟩ := h
      obtain ⟨ds, rest, hs, hne, hd, hi, hn⟩ := fromCharsDigits_ok hfc
      refine ⟨true, ds, rest, ?_, hne, hd, hi, by simp [numeral, hn]⟩
      rw [eq_cons_of_mem_head? hminus, hs]
      rfl
  · obtain ⟨ds, rest, hs, hne, hd, hi, hn⟩ := fromCharsDigits_ok h
    exact ⟨false, ds, rest, hs, hne, hd, hi, hn⟩

private theorem takeWhile_digits (hd : ds.all isDigit) : ds.takeWhile isDigit = ds := by
  rw [takeWhile_eq_self_iff]
  simpa using hd

private theorem fromChars_digits (hd : ds.all isDigit) :
    fromChars ds = fromCharsDigits false ds := by
  rw [fromChars, if_neg (head?_ne_minus hd)]

theorem fromChars_all_digits (hd : ds.all isDigit) (h : fromChars ds = .ok (i, n)) :
    ds ≠ [] ∧ i.toInt = signedVal false ds := by
  rw [fromChars_digits hd, fromCharsDigits, takeWhile_digits hd] at h
  split at h
  · cases h
  · next hne =>
    split at h
    · cases h
    · next hrange =>
      obtain ⟨rfl, -⟩ := Prod.mk.inj (Except.ok.inj h)
      exact ⟨hne, Int64.toInt_ofInt_of_le (by omega) (by omega)⟩

theorem fromChars_numeral (neg : Bool) (hne : ds ≠ []) (hd : ds.all isDigit)
    (hlo : -2 ^ 63 ≤ signedVal neg ds) (hhi : signedVal neg ds < 2 ^ 63) :
    fromChars (numeral neg ds) = .ok (Int64.ofInt (signedVal neg ds), (numeral neg ds).length) := by
  have hdigits : fromCharsDigits neg ds = .ok (Int64.ofInt (signedVal neg ds), ds.length) := by
    simp only [fromCharsDigits, takeWhile_digits hd]
    rw [if_neg hne, if_neg (by omega)]
  cases neg with
  | false => rwa [numeral, if_neg (by simp), fromChars_digits hd]
  | true =>
    rw [numeral, if_pos rfl, fromChars, if_pos head?_cons, tail_cons, hdigits]
    rfl

theorem signedVal_printNat (n : Nat) : signedVal false (printNat n) = n := by
  simp [signedVal, digitsVal_printNat]

theorem fromChars_printNat (hn : n < 2 ^ 63) :
    fromChars (printNat n) = .ok (Int64.ofInt n, (printNat n).length) := by
  have hv := signedVal_printNat n
  have := fromChars_numeral false (printNat_ne_nil n) (printNat_all_isDigit n)
    (by omega) (by omega)
  rwa [hv] at this

theorem fromChars_printInt (i : Int64) :
    fromChars (printInt i.toInt) = .ok (i, (printInt i.toInt).length) := by
  have hlo := i.le_toInt
  have hhi := i.toInt_lt
  -- both signs are read the same way
  have key : ∀ neg, signedVal neg (printNat i.toInt.natAbs) = i.toInt →
      fromChars (numeral neg (printNat i.toInt.natAbs)) =
        .ok (i, (numeral neg (printNat i.toInt.natAbs)).length) := by
    intro neg hv
    have := fromChars_numeral neg (printNat_ne_nil i.toInt.natAbs)
      (printNat_all_isDigit _) (by omega) (by omega)
    rwa [hv, Int64.ofInt_toInt] at this
  rw [printInt]
  split
  · exact key true (by simp only [signedVal, digitsVal_printNat, if_true]; omega)
  · next hpos =>
    refine key false ?_
    simp only [signedVal, digitsVal_printNat, Bool.false_eq_true, if_false]
    omega

theorem numeral_ne_nil {neg : Bool} (hne : ds ≠ []) : numeral neg ds ≠ [] := by
  cases neg <;> simp [numeral, hne]

theorem numeral_all (neg : Bool) (hd : ds.all isDigit) : (numeral neg ds).all isNumeralByte := by
  have hds : ds.all isNumeralByte := by
    rw [all_eq_true] at hd ⊢
    intro b hb
    simp [isNumeralByte, hd b hb]
  cases neg <;> simp_all [numeral, isNumeralByte]

theorem fromChars_head (h : fromChars s = .ok (i, n)) : ∃ b t, s = b :: t ∧ isNumeralByte b := by
  obtain ⟨neg, ds, rest, rfl, hne, hd, -, -⟩ := fromChars_ok h
  have hall := numeral_all neg hd
  cases hnum : numeral neg ds with
  | nil => exact absurd hnum (numeral_ne_nil hne)
  | cons b t =>
    rw [hnum] at hall
    exact ⟨b, t ++ rest, rfl, by simp_all⟩

theorem fromChars_complete (h : fromChars s = .ok (i, s.length)) :
    ∃ neg ds, s = numeral neg ds ∧ ds ≠ [] ∧ ds.all isDigit ∧ i.toInt = signedVal neg ds := by
  obtain ⟨neg, ds, rest, hs, hne, hd, hi, hn⟩ := fromChars_ok h
  -- as many bytes were read as there are, so nothing follows the numeral
  have hrest : rest = [] := by
    have := congrArg length hs
    rw [length_append] at this
    exact length_eq_zero_iff.mp (by omega)
  subst hrest
  exact ⟨neg, ds, by simpa using hs, hne, hd, hi⟩

private theorem digitsVal_eq_zero_of_canon (hc : canonNat ds) (h0 : digitsVal ds = 0) :
    ds = [48] := by
  have := printNat_digitsVal hc
  rw [h0] at this
  exact this.symm

theorem printInt_iff_canonInt (h : fromChars s = .ok (i, s.length)) :
    printInt i.toInt = s ↔ canonInt s := by
  obtain ⟨neg, ds, rfl, hne, hd, hi⟩ := fromChars_complete h
  have habs : i.toInt.natAbs = digitsVal ds := by
    cases neg <;> simp only [signedVal] at hi <;> simp_all
  cases neg with
  | false =>
    have hpos : ¬ i.toInt < 0 := by simp only [signedVal] at hi; simp_all
    -- without a sign a numeral is canonical when its digits are
    have hcanon : canonInt ds = canonNat ds := by
      cases ds with
      | nil => rfl
      | cons b ds =>
        have hb : b ≠ 45 := by simpa using head?_ne_minus hd
        simp only [canonInt]
        split <;> simp_all
    simp only [printInt, if_neg hpos, habs, numeral, hcanon, Bool.false_eq_true, if_false]
    exact printNat_digitsVal_iff ds
  | true =>
    simp only [numeral, if_true, canonInt, Bool.and_eq_true, bne_iff_ne]
    have hval : i.toInt = -(digitsVal ds : Int) := by simpa [signedVal] using hi
    constructor
    · intro hp
      rw [printInt] at hp
      split at hp
      · next hneg =>
        -- the minus sign was printed, so the value is not zero
        have hds : printNat (digitsVal ds) = ds := by
          rw [habs] at hp
          exact (cons.inj hp).2
        refine ⟨(printNat_digitsVal_iff ds).mp hds, fun h48 => ?_⟩
        have hz : digitsVal ds = 0 := by rw [h48]; rfl
        omega
      · -- a number without a sign does not start with one
        have hh := head?_ne_minus (printNat_all_isDigit i.toInt.natAbs)
        rw [hp] at hh
        simp at hh
    · rintro ⟨hc, h48⟩
      have hne0 : digitsVal ds ≠ 0 := fun h0 => h48 (digitsVal_eq_zero_of_canon hc h0)
      rw [printInt, if_pos (by omega), habs, printNat_digitsVal hc]

theorem printNat_iff_canonNat {m : Nat} (h : fromChars s = .ok (i, n)) (hm : i.toInt = m) :
    printNat m = s ↔ canonNat s := by
  constructor
  · intro hp
    rw [← hp]
    exact canonNat_printNat m
  · intro hc
    have hd : s.all isDigit := by
      simp only [canonNat, Bool.and_eq_true] at hc
      exact hc.1.1
    have hsne : s ≠ [] := by
      obtain ⟨b, t, rfl, -⟩ := fromChars_head h
      simp
    -- all of `s` is digits, so all of it was read
    rw [fromChars_digits hd, fromCharsDigits, takeWhile_digits hd] at h
    simp only [if_neg hsne] at h
    split at h
    · cases h
    · next hrange =>
      simp only [Except.ok.injEq, Prod.mk.injEq] at h
      have hval : i.toInt = digitsVal s := by
        rw [← h.1, Int64.toInt_ofInt_of_le (by omega) (by omega)]
        simp [signedVal]
      rw [show m = digitsVal s by omega]
      exact printNat_digitsVal hc

end P2P.Bencode
