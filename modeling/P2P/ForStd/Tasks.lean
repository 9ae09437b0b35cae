import Mathlib.Algebra.GroupWithZero.Nat
import Mathlib.Data.List.Perm.Basic

/-!
# Lists of tasks

A task that goes on is replaced at its place in a list, or ends and is taken out.
-/

namespace List

variable {α : Type*} {i : Nat} {l : List α} {a : α}

theorem countP_eraseIdx_add (h : l[i]? = some a) (p : α → Bool) :
    (l.eraseIdx i).countP p + (p a).toNat = l.countP p := by
  obtain ⟨hi, rfl⟩ := getElem?_eq_some_iff.mp h
  rw [← (getElem_cons_eraseIdx_perm hi).countP_eq, countP_cons]
  cases p l[i] <;> rfl

theorem countP_set_add (h : l[i]? = some a) (b : α) (p : α → Bool) :
    (l.set i b).countP p + (p a).toNat = l.countP p + (p b).toNat := by
  obtain ⟨hi, rfl⟩ := getElem?_eq_some_iff.mp h
  rw [(set_perm_cons_eraseIdx hi b).countP_eq, countP_cons, ← countP_eraseIdx_add h p]
  cases p b
  · rfl
  · exact Nat.add_right_comm ..

theorem countP_le_add {p q r : α → Bool} (h : ∀ a ∈ l, p a = true → q a = true ∨ r a = true) :
    l.countP p ≤ l.countP q + l.countP r := by
  induction l with
  | nil => simp
  | cons a l ih =>
    rw [forall_mem_cons] at h
    have hle := ih h.2
    have ha := h.1
    simp only [countP_cons]
    cases hp : p a <;> cases hq : q a <;> cases hr : r a <;> simp_all <;> omega

theorem exists_eq_append_cons (h : l[i]? = some a) :
    ∃ as bs, l = as ++ a :: bs ∧ ∀ b, l.set i b = as ++ b :: bs := by
  obtain ⟨hi, rfl⟩ := getElem?_eq_some_iff.mp h
  refine ⟨l.take i, l.drop (i + 1), ?_, fun b => ?_⟩
  · rw [getElem_cons_drop, take_append_drop]
  · rw [set_eq_take_append_cons_drop, if_pos hi]

theorem sum_map_set_add (h : l[i]? = some a) (b : α) (w : α → Nat) :
    ((l.set i b).map w).sum + w a = (l.map w).sum + w b := by
  obtain ⟨as, bs, rfl, hset⟩ := exists_eq_append_cons h
  simp only [hset, map_append, map_cons, sum_append, sum_cons]
  omega

section

variable {α β : Type*} {l : List α} {i : Nat} {a b : α} {p : α → Bool} {f : α → List β}

section

variable (hf : ∀ a, p a = false → f a = [])

include hf

theorem flatMap_eq_nil_of_countP (hl : l.countP p = 0) : l.flatMap f = [] := by
  rw [flatMap_eq_nil_iff]
  intro a ha
  have hpa := (countP_eq_zero.mp hl) a ha
  exact hf a (by simpa using hpa)

theorem flatMap_set_of_pos (h : l[i]? = some a) (ha : p a = true) (hl : l.countP p ≤ 1) :
    l.flatMap f = f a ∧ ∀ b, (l.set i b).flatMap f = f b := by
  obtain ⟨as, bs, rfl, hset⟩ := exists_eq_append_cons h
  rw [countP_append, countP_cons_of_pos ha] at hl
  have has : as.flatMap f = [] := flatMap_eq_nil_of_countP hf (by omega)
  have hbs : bs.flatMap f = [] := flatMap_eq_nil_of_countP hf (by omega)
  exact ⟨by simp [has, hbs], fun b => by simp [hset, has, hbs]⟩

theorem flatMap_set_of_neg (h : l[i]? = some a) (ha : p a = false) (hb : p b = false) :
    (l.set i b).flatMap f = l.flatMap f := by
  obtain ⟨as, bs, rfl, hset⟩ := exists_eq_append_cons h
  simp [hset, hf a ha, hf b hb]

end

end

variable {b : α}

theorem mem_eraseIdx_of_ne (ha : a ∈ l) (hb : l[i]? = some b) (hne : a ≠ b) : a ∈ l.eraseIdx i := by
  obtain ⟨j, hj⟩ := mem_iff_getElem?.mp ha
  refine mem_eraseIdx_iff_getElem?.mpr ⟨j, ?_, hj⟩
  rintro rfl
  exact hne (Option.some.inj (hj.symm.trans hb))

theorem forall_mem_set {P : α → Prop} (hl : ∀ a ∈ l, P a) (hb : P b) : ∀ a ∈ l.set i b, P a := by
  intro a ha
  rcases mem_or_eq_of_mem_set ha with hmem | rfl
  · exact hl a hmem
  · exact hb

end List
