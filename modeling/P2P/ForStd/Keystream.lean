import Mathlib.Data.List.Basic

/-!
# Stream ciphers

A stream cipher turns one byte after the other with a state that moves on by itself, whatever the
bytes are.
-/

namespace P2P

/-- A stream cipher with states `σ` on symbols `β`. -/
structure StreamCipher (σ β : Type*) where
  /-- The state for the next symbol. -/
  next : σ → σ
  /-- What the cipher does to a symbol in the state for it. -/
  mix : σ → β → β
  /-- Doing it twice gives the symbol back. -/
  mix_mix : ∀ s b, mix s (mix s b) = b

namespace StreamCipher

variable {σ β : Type*} (C : StreamCipher σ β)

/-- Enciphers data, or deciphers it; returns the state to go on with. -/
def crypt : σ → List β → List β × σ
  | s, [] => ([], s)
  | s, b :: bs =>
    let r := crypt (C.next s) bs
    (C.mix (C.next s) b :: r.1, r.2)

@[simp] theorem crypt_nil (s : σ) : C.crypt s [] = ([], s) := rfl

@[simp] theorem length_crypt (s : σ) (bs : List β) : (C.crypt s bs).1.length = bs.length := by
  induction bs generalizing s with
  | nil => rfl
  | cons b bs ih => simp [crypt, ih]

theorem crypt_append (s : σ) (as bs : List β) :
    C.crypt s (as ++ bs) =
      ((C.crypt s as).1 ++ (C.crypt (C.crypt s as).2 bs).1, (C.crypt (C.crypt s as).2 bs).2) := by
  induction as generalizing s with
  | nil => rfl
  | cons a as ih => simp [crypt, ih]

/-- Stated apart so that no proof takes the pair of `crypt_append` apart on concrete data. -/
theorem crypt_append_snd (s : σ) (as bs : List β) :
    (C.crypt s (as ++ bs)).2 = (C.crypt (C.crypt s as).2 bs).2 := by
  rw [crypt_append]

theorem crypt_crypt (s : σ) (bs : List β) :
    C.crypt s (C.crypt s bs).1 = (bs, (C.crypt s bs).2) := by
  induction bs generalizing s with
  | nil => rfl
  | cons b bs ih => simp [crypt, ih, C.mix_mix]

/-- The cipher where there may also be none in use: the data then stays as it is. -/
def optional : StreamCipher (Option σ) β where
  next := Option.map C.next
  mix := fun
    | none => id
    | some s => C.mix s
  mix_mix s b := by
    cases s with
    | none => rfl
    | some s => exact C.mix_mix s b

@[simp] theorem optional_crypt_none (bs : List β) : C.optional.crypt none bs = (bs, none) := by
  induction bs with
  | nil => rfl
  | cons b bs ih => simp only [crypt, optional, Option.map_none, id_eq] at ih ⊢; rw [ih]

@[simp] theorem optional_crypt_some (s : σ) (bs : List β) :
    C.optional.crypt (some s) bs = ((C.crypt s bs).1, some (C.crypt s bs).2) := by
  induction bs generalizing s with
  | nil => rfl
  | cons b bs ih => simp only [crypt, optional, Option.map_some] at ih ⊢; rw [ih]

end StreamCipher

end P2P
