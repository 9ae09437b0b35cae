import P2P.Spec.Inventory

/-!
# The rarity index

`pieces_by_rarity_` sorts the needed pieces by availability, and those in progress into a bucket of
their own.
-/

namespace P2P

open InventoryStep List Option Function

namespace Inventory

/-- The availability may go up: we have the piece, or it is not in progress and the number is not
    that bucket's. -/
def Raisable (inv : Inventory) (i : Nat) : Prop :=
  inv.status i = .have_ ∨
    (inv.status i ≠ .inProgress ∧ inv.availability i + 1 < inProgressRarityGroupId)

instance Raisable.decidable (inv : Inventory) (i : Nat) : Decidable (inv.Raisable i) :=
  inferInstanceAs (Decidable (_ ∨ _))

/-- The availability may go down: the piece is needed or skipped, and some peer is counted. -/
def Lowerable (inv : Inventory) (i : Nat) : Prop :=
  (inv.status i = .needed ∨ inv.status i = .skipped) ∧ 0 < inv.availability i

instance Lowerable.decidable (inv : Inventory) (i : Nat) : Decidable (inv.Lowerable i) :=
  inferInstanceAs (Decidable (_ ∧ _))

end Inventory

/-- The availability changes only where the index follows, needed pieces start, and those in
    progress come back. -/
def InventoryStep.Quiet (r : InventoryRun) : InventoryStep → Prop
  | .onPeerHasPiece _ i => i < r.inventory.numPieces → r.inventory.Raisable i
  | .onPeerHasAll _ => ∀ i < r.inventory.numPieces, r.inventory.Raisable i
  | .onPeerBitfield _ bitfield =>
    ∀ i < r.inventory.numPieces, Bitfield.get bitfield i = true → r.inventory.Raisable i
  | .onDisconnect k =>
    ∀ c ∈ r.conns[k]?, ∀ i < r.inventory.numPieces, c.conn.hasPiece i = true →
      r.inventory.Lowerable i
  | .startPiece i => i < r.inventory.numPieces ∧ r.inventory.status i = .needed
  | .returnPieceToQueue i => i < r.inventory.numPieces ∧ r.inventory.status i = .inProgress
  | _ => True

instance InventoryStep.Quiet.decidable (r : InventoryRun) :
    ∀ st, Decidable (InventoryStep.Quiet r st) := by
  intro st
  induction st using InventoryStep.casesOn <;> dsimp only [InventoryStep.Quiet] <;> infer_instance

namespace Inventory

def Placed (status : PieceStatus) (availability : Nat) (place : Option Nat) : Prop :=
  match status with
  | .needed => place = some availability ∧ availability < inProgressRarityGroupId
  | .skipped =>
    (place = some availability ∨ place = none) ∧ availability < inProgressRarityGroupId
  | .inProgress =>
    place = some inProgressRarityGroupId ∧ availability < inProgressRarityGroupId
  | .have_ => True

structure Indexed (n : Nat) (inv : Inventory) (place : Nat → Option Nat) : Prop where
  small : n ≤ 2 ^ 31
  pieces : inv.numPieces = n
  size : inv.pieceAvailability.length = n
  places : Buckets.Places inv.piecesByRarity place
  bounded : ∀ i, n ≤ i → place i = none
  placed : ∀ i < n, Placed (inv.status i) (inv.availability i) (place i)

variable {n : Nat} {inv : Inventory} {place : Nat → Option Nat} {i : Nat}

theorem u32_of_lt {a : Nat} (h : a < inProgressRarityGroupId) : u32 a = a :=
  Nat.mod_eq_of_lt (h.trans (by decide))

theorem inProgressRarityGroupId_lt : inProgressRarityGroupId < 2 ^ 32 := by decide

theorem castInt_of_lt (h : i < 2 ^ 31) : castInt i = i := by
  have hcast : Int.bmod i (2 ^ 32) = i := Int.bmod_eq_of_le (by omega) (by omega)
  unfold castInt
  rw [hcast, Int.emod_eq_of_lt (by omega) (by omega), Int.toNat_natCast]

theorem Indexed.move (h : Indexed n inv place) (hi : i < n) (old new : Nat)
    {inv' : Inventory} (hpieces : inv'.numPieces = n) (hsize : inv'.pieceAvailability.length = n)
    (hrarity : inv'.piecesByRarity = Buckets.move inv.piecesByRarity (castInt i) old new)
    (hplace : place i = some old ∨ place i = none)
    (hself : Placed (inv'.status i) (inv'.availability i) (some new))
    (hother : ∀ j, j ≠ i →
      inv'.status j = inv.status j ∧ inv'.availability j = inv.availability j) :
    Indexed n inv' (update place i (some new)) := by
  rw [castInt_of_lt (hi.trans_le h.small)] at hrarity
  refine ⟨h.small, hpieces, hsize, hrarity ▸ h.places.move new hplace,
    fun j hj => ?_, fun j hj => ?_⟩
  · rw [update_of_ne (by omega)]
    exact h.bounded j hj
  · by_cases hji : j = i
    · subst hji
      rw [update_self]
      exact hself
    · rw [update_of_ne hji, (hother j hji).1, (hother j hji).2]
      exact h.placed j hj

theorem availability_add_of_ne (inv : Inventory) {i j : Nat} (hj : j ≠ i) (val : Int) :
    (inv.addPieceAvailability i val).availability j = inv.availability j := by
  rw [availability_addPieceAvailability, if_neg fun h => hj h.1]

theorem availability_add_self (hi : i < inv.pieceAvailability.length) (val : Int) :
    (inv.addPieceAvailability i val).availability i =
      (((inv.availability i : Int) + val) % 2 ^ 64).toNat := by
  rw [availability_addPieceAvailability, if_pos ⟨rfl, hi⟩]

theorem Placed.cases {status : PieceStatus} {availability : Nat} {place : Option Nat}
    (h : Placed status availability place) (hhave : status ≠ .have_)
    (hprogress : status ≠ .inProgress) :
    (place = some availability ∨ place = none) ∧ availability < inProgressRarityGroupId := by
  cases status with
  | needed => exact ⟨.inl h.1, h.2⟩
  | skipped => exact h
  | inProgress => exact absurd rfl hprogress
  | have_ => exact absurd rfl hhave

theorem Placed.self {status : PieceStatus} {availability : Nat} (hprogress : status ≠ .inProgress)
    (hlt : availability < inProgressRarityGroupId) :
    Placed status availability (some availability) := by
  cases status with
  | needed => exact ⟨rfl, hlt⟩
  | skipped => exact ⟨.inl rfl, hlt⟩
  | inProgress => exact absurd rfl hprogress
  | have_ => trivial

section

variable (h : Indexed n inv place) (hi : i < n)

include h hi

theorem Indexed.shift (hhave : inv.status i ≠ .have_) (hprogress : inv.status i ≠ .inProgress)
    (val : Int) (new : Nat) (hnew : (((inv.availability i : Int) + val) % 2 ^ 64).toNat = new)
    (hlt : new < inProgressRarityGroupId) :
    ∃ place', Indexed n ((inv.addPieceAvailability i val).updatePieceRarity i
      (u32 (inv.availability i))
        (u32 ((inv.addPieceAvailability i val).availability i))) place' := by
  obtain ⟨hplace, hold⟩ := (h.placed i hi).cases hhave hprogress
  have hself : (inv.addPieceAvailability i val).availability i = new :=
    (availability_add_self (hi.trans_eq h.size.symm) val).trans hnew
  rw [hself, u32_of_lt hold, u32_of_lt hlt]
  refine ⟨_, h.move hi (inv.availability i) new h.pieces
    ((length_addPieceAvailability inv i val).trans h.size) rfl hplace ?_
    fun j hj => ⟨rfl, availability_add_of_ne inv hj val⟩⟩
  show Placed (inv.status i) ((inv.addPieceAvailability i val).availability i) (some new)
  rw [hself]
  exact Placed.self hprogress hlt

theorem Indexed.countPiece (hraise : inv.Raisable i) :
    ∃ place', Indexed n (inv.countPiece i) place' := by
  unfold Inventory.countPiece
  split
  · -- a piece that we have stays where it is
    next hhave =>
    refine ⟨place, h.small, h.pieces, (length_addPieceAvailability inv i 1).trans h.size, h.places,
      h.bounded, fun j hj => ?_⟩
    by_cases hji : j = i
    · subst hji
      show Placed (inv.status j) _ _
      rw [hhave]
      trivial
    · rw [availability_add_of_ne inv hji]
      exact h.placed j hj
  · next hhave =>
    obtain ⟨hprogress, hlt⟩ := hraise.resolve_left hhave
    refine h.shift hi hhave hprogress 1 (inv.availability i + 1) ?_ hlt
    have := inProgressRarityGroupId_lt
    omega

theorem Indexed.uncountPiece (hlower : inv.Lowerable i) :
    ∃ place', Indexed n (inv.uncountPiece i) place' := by
  obtain ⟨hstatus, hpos⟩ := hlower
  have hhave : inv.status i ≠ .have_ := by rcases hstatus with hs | hs <;> rw [hs] <;> decide
  have hprogress : inv.status i ≠ .inProgress := by
    rcases hstatus with hs | hs <;> rw [hs] <;> decide
  have hlt := ((h.placed i hi).cases hhave hprogress).2
  have := inProgressRarityGroupId_lt
  refine h.shift hi hhave hprogress (-1) (inv.availability i - 1) ?_ ?_
  · omega
  · omega

end

theorem Indexed.foldl {f : Inventory → Nat → Inventory} {val : Int} {ok : Inventory → Nat → Prop}
    (hf : ∀ inv i, ∃ rarity, f inv i =
      { inv.addPieceAvailability i val with piecesByRarity := rarity })
    (hok : ∀ (inv inv' : Inventory) (i : Nat), inv'.status i = inv.status i →
      inv'.availability i = inv.availability i → ok inv i → ok inv' i)
    (hstep : ∀ {inv place i}, Indexed n inv place → i < n → ok inv i →
      ∃ place', Indexed n (f inv i) place')
    {l : List Nat} (hnodup : l.Nodup) (h : Indexed n inv place) (hl : ∀ i ∈ l, i < n ∧ ok inv i) :
    ∃ place', Indexed n (l.foldl f inv) place' := by
  induction l generalizing inv place with
  | nil => exact ⟨place, h⟩
  | cons i l ih =>
    obtain ⟨hi, hnodup⟩ := nodup_cons.mp hnodup
    obtain ⟨hin, hoki⟩ := hl i (mem_cons_self ..)
    obtain ⟨place', h'⟩ := hstep h hin hoki
    refine ih hnodup h' fun j hj => ?_
    obtain ⟨hjn, hokj⟩ := hl j (mem_cons_of_mem _ hj)
    refine ⟨hjn, ?_⟩
    -- the pieces that follow are as they were
    have hne : j ≠ i := fun heq => hi (heq ▸ hj)
    obtain ⟨rarity, heq⟩ := hf inv i
    rw [heq]
    exact hok inv _ j rfl (availability_add_of_ne inv hne val) hokj

section

variable (inv inv' : Inventory) (i : Nat) (hstatus : inv'.status i = inv.status i)
  (havail : inv'.availability i = inv.availability i)

include hstatus havail

theorem Raisable.congr (h : inv.Raisable i) : inv'.Raisable i := by
  unfold Raisable at h ⊢
  rwa [hstatus, havail]

theorem Lowerable.congr (h : inv.Lowerable i) : inv'.Lowerable i := by
  unfold Lowerable at h ⊢
  rwa [hstatus, havail]

end

theorem status_setStatus_of_ne (inv : Inventory) {i j : Nat} (hj : j ≠ i) (status : PieceStatus) :
    (inv.setStatus i status).status j = inv.status j := by
  unfold setStatus Inventory.status
  rw [getElem?_set_ne (Ne.symm hj)]

theorem status_setStatus_self (hi : i < inv.numPieces) (status : PieceStatus) :
    (inv.setStatus i status).status i = status := by
  unfold setStatus Inventory.status
  rw [getElem?_set_self hi]
  rfl

theorem Indexed.restatus (h : Indexed n inv place) (hi : i < n) (status : PieceStatus)
    {old new : Nat}
    (hplace : place i = some old) (hnew : Placed status (inv.availability i) (some new)) :
    Indexed n ((inv.setStatus i status).updatePieceRarity i old new)
      (update place i (some new)) := by
  refine h.move hi old new (length_set.trans h.pieces) h.size rfl (.inl hplace) ?_
    fun j hj => ⟨status_setStatus_of_ne inv hj _, rfl⟩
  show Placed ((inv.setStatus i status).status i) (inv.availability i) _
  rwa [status_setStatus_self (hi.trans_eq h.pieces.symm)]

theorem Indexed.startPiece (h : Indexed n inv place) (hi : i < n)
    (hneeded : inv.status i = .needed) : ∃ place', Indexed n (inv.startPiece i) place' := by
  have hplaced := h.placed i hi
  rw [hneeded] at hplaced
  have hmove := h.restatus hi .inProgress hplaced.1 ⟨rfl, hplaced.2⟩
  exact ⟨_, (u32_of_lt hplaced.2).symm ▸ hmove⟩

theorem Indexed.returnPieceToQueue (h : Indexed n inv place) (hi : i < n)
    (hprogress : inv.status i = .inProgress) :
    ∃ place', Indexed n (inv.returnPieceToQueue i) place' := by
  have hplaced := h.placed i hi
  rw [hprogress] at hplaced
  have hmove := h.restatus hi .needed hplaced.1 ⟨rfl, hplaced.2⟩
  exact ⟨_, (u32_of_lt hplaced.2).symm ▸ hmove⟩

theorem Indexed.completePiece (h : Indexed n inv place) (i : Nat) :
    Indexed n (inv.completePiece i) place := by
  refine ⟨h.small, length_set.trans h.pieces, h.size, h.places, h.bounded, fun j hj => ?_⟩
  by_cases hji : j = i
  · subst hji
    show Placed ((inv.setStatus j .have_).status j) _ _
    rw [status_setStatus_self (hj.trans_eq h.pieces.symm)]
    trivial
  · show Placed ((inv.setStatus i .have_).status j) _ _
    rw [status_setStatus_of_ne inv hji]
    exact h.placed j hj

theorem places_build (inv : Inventory) (m : Nat) (hm : m ≤ 2 ^ 31) :
    Buckets.Places ((range m).foldl (fun buckets i =>
        match inv.targetRarity i with
        | some rarity => Buckets.put buckets (castInt i) rarity
        | none => buckets) OrdMap.empty)
      fun i => if i < m then inv.targetRarity i else none := by
  induction m with
  | zero => exact Buckets.Places.empty
  | succ m ih =>
    rw [range_succ, foldl_append]
    have hplace : (fun i => if i < m + 1 then inv.targetRarity i else none) =
        update (fun i => if i < m then inv.targetRarity i else none) m
          (inv.targetRarity m) := by
      funext i
      by_cases him : i = m
      · subst him
        simp
      · rw [update_of_ne him]
        have hiff : i < m + 1 ↔ i < m := by omega
        simp only [hiff]
    rw [hplace]
    simp only [foldl_cons, foldl_nil, castInt_of_lt hm]
    have ih := ih (Nat.le_of_succ_le hm)
    cases htarget : inv.targetRarity m with
    | none =>
      -- a skipped piece goes into no bucket
      rw [update_eq_self_iff.mpr (by simp)]
      exact ih
    | some rarity => exact ih.put (.inr (by simp))

end Inventory

namespace InventoryStep

open Inventory

variable {n : Nat}

theorem step_indexed (r : InventoryRun) (st : InventoryStep) (r' : InventoryRun)
    (hquiet : Quiet r st) (h : step r st = some r')
    (hr : ∃ place, r.inventory.Indexed n place) : ∃ place, r'.inventory.Indexed n place := by
  obtain ⟨place, hr⟩ := hr
  have hpieces := hr.pieces
  cases st with
  | connect =>
    cases h
    exact ⟨place, hr⟩
  | onPeerHasPiece k i =>
    obtain ⟨c, hc, rfl⟩ := map_eq_some_iff.mp h
    show ∃ place, Indexed n (r.inventory.onPeerHasPiece c.conn i).2 place
    rcases r.inventory.onPeerHasPiece_snd c.conn i with heq | ⟨hi, heq⟩
    · rw [heq]
      exact ⟨place, hr⟩
    · rw [heq]
      exact hr.countPiece (hi.trans_eq hpieces) (hquiet hi)
  | onPeerHasAll k =>
    obtain ⟨c, hc, rfl⟩ := map_eq_some_iff.mp h
    unfold Inventory.onPeerHasAll
    split
    · exact ⟨place, hr⟩
    · refine Indexed.foldl countPiece_eq Raisable.congr Indexed.countPiece nodup_range hr
        fun i hi => ?_
      have hi := mem_range.mp hi
      exact ⟨hi.trans_eq hpieces, hquiet i hi⟩
  | onPeerHasNone k =>
    obtain ⟨c, hc, rfl⟩ := map_eq_some_iff.mp h
    exact ⟨place, hr⟩
  | onPeerBitfield k bitfield =>
    obtain ⟨c, hc, rfl⟩ := map_eq_some_iff.mp h
    simp only [Inventory.onPeerBitfield]
    split
    · exact ⟨place, hr⟩
    · split
      · exact ⟨place, hr⟩
      · refine Indexed.foldl countPiece_eq Raisable.congr Indexed.countPiece
          (nodup_range.filter _) hr fun i hi => ?_
        obtain ⟨hi, hbit⟩ := mem_filter.mp hi
        have hi := mem_range.mp hi
        exact ⟨hi.trans_eq hpieces, hquiet i hi hbit⟩
  | onDisconnect k =>
    obtain ⟨c, hc, rfl⟩ := map_eq_some_iff.mp h
    refine Indexed.foldl uncountPiece_eq Lowerable.congr Indexed.uncountPiece
      (nodup_range.filter _) hr fun i hi => ?_
    obtain ⟨hi, hbit⟩ := mem_filter.mp hi
    have hi := mem_range.mp hi
    exact ⟨hi.trans_eq hpieces, hquiet c hc i hi hbit⟩
  | startPiece i =>
    cases h
    exact hr.startPiece (hquiet.1.trans_eq hpieces) hquiet.2
  | completePiece i =>
    cases h
    exact ⟨place, hr.completePiece i⟩
  | returnPieceToQueue i =>
    cases h
    exact hr.returnPieceToQueue (hquiet.1.trans_eq hpieces) hquiet.2

end InventoryStep

namespace Inventory

theorem placed_targetRarity {inv : Inventory} {i : Nat} (havail : inv.availability i = 0) :
    Placed (inv.status i) 0 (inv.targetRarity i) := by
  unfold targetRarity
  rw [havail]
  cases inv.status i with
  | needed => exact ⟨rfl, by decide⟩
  | skipped => exact ⟨.inr rfl, by decide⟩
  | inProgress => exact ⟨rfl, by decide⟩
  | have_ => trivial

theorem indexed_start (pieceStatus : List PieceStatus) (hsmall : pieceStatus.length ≤ 2 ^ 31) :
    ∃ place, (InventoryRun.start pieceStatus).inventory.Indexed pieceStatus.length place := by
  have hsame : (InventoryRun.start pieceStatus).inventory.pieceAvailability =
      replicate pieceStatus.length 0 := by
    simp [InventoryRun.start, buildPieceRarity, numPieces]
  have havail : ∀ i, (InventoryRun.start pieceStatus).inventory.availability i = 0 := by
    intro i
    rw [availability, hsame, getElem?_replicate]
    split <;> rfl
  refine ⟨_, hsmall, rfl, by rw [hsame, length_replicate], places_build _ pieceStatus.length hsmall,
    fun i hi => if_neg (not_lt.mpr hi), fun i hi => ?_⟩
  rw [if_pos hi, havail]
  exact placed_targetRarity (havail i)

end Inventory

/-- In a run whose steps meet the condition, over piece numbers that are an `int`, every piece is
    in one bucket at most, a needed piece in that of its availability, and no bucket is empty. -/
theorem rarity_index_correct (pieceStatus : List PieceStatus) (steps : List InventoryStep)
    (r : InventoryRun) (hsmall : pieceStatus.length ≤ 2 ^ 31)
    (hquiet : StepsMeet step InventoryStep.Quiet steps (.start pieceStatus))
    (hrun : run steps (.start pieceStatus) = some r) :
    (∀ rarity rarity' i, i ∈ r.inventory.piecesByRarity.bucket rarity →
      i ∈ r.inventory.piecesByRarity.bucket rarity' → rarity = rarity') ∧
    (∀ i < pieceStatus.length, r.inventory.status i = .needed →
      i ∈ r.inventory.piecesByRarity.bucket (r.inventory.availability i)) ∧
    (∀ i < pieceStatus.length, r.inventory.status i = .inProgress →
      i ∈ r.inventory.piecesByRarity.bucket inProgressRarityGroupId) ∧
    (∀ rarity pieces, r.inventory.piecesByRarity.get? rarity = some pieces → pieces ≠ ∅) ∧
    ∀ shuffle : Finset Nat → List Nat, (∀ pieces i, i ∈ shuffle pieces ↔ i ∈ pieces) →
      (((r.inventory.rarestFirst shuffle).filter fun i => r.inventory.status i = .needed).Pairwise
        fun i j => r.inventory.availability i ≤ r.inventory.availability j) ∧
      ∀ i < pieceStatus.length, r.inventory.status i = .needed → r.inventory.availability i ≠ 0 →
        i ∈ r.inventory.rarestFirst shuffle := by
  obtain ⟨place, h⟩ := runSteps_invariant step_indexed hquiet hrun
    (Inventory.indexed_start pieceStatus hsmall)
  have hneeded : ∀ i < pieceStatus.length, r.inventory.status i = .needed →
      place i = some (r.inventory.availability i) := by
    intro i hi hstatus
    have hplaced := h.placed i hi
    rw [hstatus] at hplaced
    exact hplaced.1
  refine ⟨fun rarity rarity' i => h.places.key_eq, fun i hi hstatus => ?_, fun i hi hstatus => ?_,
    h.places.nonempty, fun shuffle hshuffle => ⟨?_, fun i hi hstatus havail => ?_⟩⟩
  · exact (h.places.mem_iff _ i).mpr (hneeded i hi hstatus)
  · have hplaced := h.placed i hi
    rw [hstatus] at hplaced
    exact (h.places.mem_iff _ i).mpr hplaced.1
  · -- a candidate is in some bucket, so it is a piece
    have hplace : ∀ i ∈ r.inventory.rarestFirst shuffle, i < pieceStatus.length := by
      intro i hi
      obtain ⟨e, he, hie⟩ := mem_flatMap.mp hi
      have hsome := h.places.place_of_mem (mem_of_mem_filter he) ((hshuffle e.2 i).mp hie)
      by_contra hge
      rw [h.bounded i (not_lt.mp hge)] at hsome
      cases hsome
    have hscan := h.places.pairwise_scan
      (l := r.inventory.piecesByRarity.entries.filter fun e => e.1 ≠ 0) filter_sublist
      (fun pieces i => (hshuffle pieces i).mp)
    refine List.Pairwise.imp_of_mem (fun {i j} hi hj hkeys => ?_) (hscan.filter _)
    obtain ⟨hi, hsi⟩ := mem_filter.mp hi
    obtain ⟨hj, hsj⟩ := mem_filter.mp hj
    exact hkeys _ _ (hneeded i (hplace i hi) (of_decide_eq_true hsi))
      (hneeded j (hplace j hj) (of_decide_eq_true hsj))
  · obtain ⟨pieces, hentry, hmem⟩ := h.places.exists_mem (hneeded i hi hstatus)
    refine mem_flatMap.mpr ⟨_, mem_filter.mpr ⟨hentry, ?_⟩, (hshuffle pieces i).mpr hmem⟩
    exact decide_eq_true havail

/-- Two peers, three pieces: the second is started and given back, the third finished, and the peer
    with the first two leaves. -/
def pieceComesBack : List InventoryStep :=
  [.connect, .connect, .onPeerBitfield 0 [0xC0], .onPeerHasPiece 1 0, .startPiece 1,
    .returnPieceToQueue 1, .startPiece 2, .completePiece 2, .onDisconnect 0]

theorem rarity_index_correct_comes_back :
    ∃ r, run pieceComesBack (.start [.needed, .needed, .needed]) = some r ∧
      r.inventory.availability 0 = 1 ∧
      0 ∈ r.inventory.piecesByRarity.bucket (r.inventory.availability 0) ∧
      ∀ rarity pieces, r.inventory.piecesByRarity.get? rarity = some pieces → pieces ≠ ∅ := by
  obtain ⟨r, hr, hneeded, havail⟩ : ∃ r,
      run pieceComesBack (.start [.needed, .needed, .needed]) = some r ∧
      r.inventory.status 0 = .needed ∧ r.inventory.availability 0 = 1 :=
    ⟨(run pieceComesBack (.start [.needed, .needed, .needed])).get
      (by decide +kernel), (some_get _).symm, by decide +kernel, by decide +kernel⟩
  have hindex := rarity_index_correct [.needed, .needed, .needed] pieceComesBack r
    (by decide) (by decide +kernel) hr
  exact ⟨r, hr, havail, hindex.2.1 0 (by decide) hneeded, hindex.2.2.2.1⟩

/-- A second peer announces a piece in progress, which is then in two buckets: the one for these and
    that of its new availability. -/
theorem rarity_index_two_buckets :
    (run [.connect, .connect, .onPeerHasPiece 0 0, .startPiece 0,
        .onPeerHasPiece 1 0] (.start [.needed])).map (fun r =>
          (r.inventory.status 0, r.inventory.piecesByRarity.entries)) =
      some (.inProgress, [(2, {0}), (inProgressRarityGroupId, {0})]) ∧
    (run [.connect, .onPeerHasPiece 0 0, .startPiece 0, .completePiece 0,
        .onDisconnect 0] (.start [.needed])).map (fun r =>
          (r.inventory.status 0, r.inventory.piecesByRarity.entries)) =
      some (.have_, [(0, {0}), (inProgressRarityGroupId, {0})]) := by
  decide +kernel

end P2P
