import P2P.ForStd.KeyedList

/-!
# Lists of leases

A list with one lease for each holder.
-/

namespace P2P.Leases

open List

variable {α β : Type*} (holder : β → α) (expiry : β → Int)

def renew [DecidableEq α] (l : List β) (b : β) : List β := l.filter (holder · ≠ holder b) ++ [b]

/-- The leases that are not over. -/
def current (l : List β) (now : Int) : List β := l.filter (now < expiry ·)

/-- The list has for each holder the last lease, as long as it is not over. -/
structure Tracks (l : List β) (last : α → Option Int) (now : Int) : Prop where
  nodup : (l.map holder).Nodup
  latest : ∀ b ∈ l, last (holder b) = some (expiry b)
  kept : ∀ a x, last a = some x → now < x → ∃ b ∈ l, holder b = a

variable {holder expiry} {l : List β} {last : α → Option Int} {now : Int}

theorem Tracks.nil (now : Int) : Tracks holder expiry [] (fun _ => none) now :=
  ⟨nodup_nil, nofun, nofun⟩

section

variable (h : Tracks holder expiry l last now)

include h

theorem Tracks.mono {now' : Int} (hle : now ≤ now') : Tracks holder expiry l last now' :=
  { h with kept := fun a x hx hlt => h.kept a x hx (by omega) }

theorem Tracks.renew [DecidableEq α] (b : β) :
    Tracks holder expiry (renew holder l b)
      (Function.update last (holder b) (some (expiry b))) now := by
  constructor
  · apply nodup_map_concat
    · exact h.nodup.sublist (filter_sublist.map _)
    · exact key_not_mem_filter l (holder b)
  · intro c hc
    cases mem_append.mp hc with
    | inl hold =>
      obtain ⟨hmem, hne⟩ := mem_filter.mp hold
      rw [Function.update_of_ne (of_decide_eq_true hne)]
      exact h.latest c hmem
    | inr hnew => rw [mem_singleton.mp hnew, Function.update_self]
  · intro a x hx hlt
    by_cases ha : a = holder b
    · exact ⟨b, mem_append_right _ (mem_singleton_self b), ha.symm⟩
    · rw [Function.update_of_ne ha] at hx
      obtain ⟨c, hmem, rfl⟩ := h.kept a x hx hlt
      exact ⟨c, mem_append_left _ (mem_filter.mpr ⟨hmem, decide_eq_true ha⟩), rfl⟩

theorem Tracks.current : Tracks holder expiry (current expiry l now) last now := by
  constructor
  · exact h.nodup.sublist (filter_sublist.map _)
  · intro b hb
    exact h.latest b (mem_of_mem_filter hb)
  · intro a x hx hlt
    obtain ⟨b, hmem, rfl⟩ := h.kept a x hx hlt
    have hexpiry : expiry b = x := Option.some.inj ((h.latest b hmem).symm.trans hx)
    exact ⟨b, mem_filter.mpr ⟨hmem, decide_eq_true (hexpiry ▸ hlt)⟩, rfl⟩

theorem Tracks.mem_current {a : α} :
    a ∈ (Leases.current expiry l now).map holder ↔ ∃ x, last a = some x ∧ now < x := by
  constructor
  · intro ha
    obtain ⟨b, hb, rfl⟩ := mem_map.mp ha
    obtain ⟨hmem, hlt⟩ := mem_filter.mp hb
    exact ⟨expiry b, h.latest b hmem, of_decide_eq_true hlt⟩
  · intro hx
    obtain ⟨x, hlast, hlt⟩ := hx
    obtain ⟨b, hb, rfl⟩ := h.current.kept a x hlast hlt
    exact mem_map_of_mem hb

end

end P2P.Leases
