import P2P.ForStd.Tasks
import P2P.Native.PieceScheduler

/-!
# Who is asked instead

A block that has timed out goes to a peer that has not rejected it and is not its first owner.
-/

namespace P2P

open List

namespace TimedBlock

/-- The peer's rejection of the block is still within its TTL. -/
def Rejected (b : TimedBlock) (v : PeerView) (p : Bytes) : Prop :=
  ∃ t, (p, t) ∈ b.rejectedBy ∧ v.rejectionClock - t ≤ rejectedBlockTtl v.tail

/-- Some random numbers lead to the peer: it is proven or fresh, or no candidate is. -/
def Pickable (b : TimedBlock) (exclude : Option Bytes) (v : PeerView) (p : Bytes) : Prop :=
  p ∈ b.candidates exclude v ∧
    (v.isProven p ∨ v.isFresh p ∨ ∀ q ∈ b.candidates exclude v, ¬ v.isProven q ∧ ¬ v.isFresh q)

variable {b : TimedBlock} {exclude : Option Bytes} {v : PeerView} {p : Bytes}

theorem mem_candidates : p ∈ b.candidates exclude v ↔
    p ∈ v.available ∧ exclude ≠ some p ∧ ¬ b.Rejected v p ∧ p ∉ b.outstanding := by
  rw [candidates, mem_filter]
  simp [Rejected, prunedRejectedPeers, and_assoc]

theorem exists_mem_pickFrom : (∃ explore, p ∈ b.pickFrom exclude v explore) ↔
    b.Pickable exclude v p := by
  unfold pickFrom Pickable
  constructor
  · rintro ⟨explore, hp⟩
    dsimp only at hp
    split_ifs at hp <;> grind [filter_eq_nil_iff]
  · rintro ⟨hp, hproven | hfresh | hnone⟩
    · exact ⟨false, by grind [filter_eq_nil_iff]⟩
    · exact ⟨true, by grind [filter_eq_nil_iff]⟩
    · exact ⟨false, by grind [filter_eq_nil_iff]⟩

theorem pickFrom_eq_nil (explore : Bool) :
    b.pickFrom exclude v explore = [] ↔ b.candidates exclude v = [] := by
  unfold pickFrom
  dsimp only
  split_ifs <;> grind

theorem exists_pickBlockPeer : (∃ explore index, b.pickBlockPeer exclude v explore index = some p) ↔
    b.Pickable exclude v p := by
  rw [← exists_mem_pickFrom]
  refine exists_congr fun explore => ⟨fun ⟨_, h⟩ => mem_of_getElem? h, fun h => ?_⟩
  obtain ⟨i, hi, rfl⟩ := mem_iff_getElem.mp h
  exact ⟨i, by simp [pickBlockPeer, Nat.mod_eq_of_lt hi]⟩

/-- Whatever the random numbers are, a replacement goes to no owner of the timed-out request and to
no peer whose rejection counts, and without a suitable peer the resumer is started. -/
def Moved (b : TimedBlock) (now : Nat) (tail : Bool) (activity : Bytes → Option Nat)
    (later : Option TimedBlock) (v : PeerView) : Prop :=
  ∀ explore index,
    (∀ p, b.checkTimeout now tail activity later v explore index = some (.request p) →
      p ∉ b.outstanding ∧ ∀ l ∈ later, ¬ l.Rejected v p) ∧
    (b.timedOut now tail activity →
      (∀ l ∈ later, ∀ p ∈ v.available, p ∈ b.outstanding ∨ p ∈ l.outstanding ∨ l.Rejected v p) →
      b.checkTimeout now tail activity later v explore index = some .resume)

theorem Pickable.exists (h : b.candidates exclude v ≠ []) : ∃ p, b.Pickable exclude v p := by
  obtain ⟨p, hp⟩ := exists_mem_of_ne_nil _ (mt (pickFrom_eq_nil false).mp h)
  exact ⟨p, exists_mem_pickFrom.mp ⟨_, hp⟩⟩

/-- A timed-out block is moved elsewhere exactly when no owner of the request can be picked: the
first one is left out, another one may be a candidate again. -/
theorem timed_out_block_moved (b : TimedBlock) (now : Nat) (tail : Bool)
    (activity : Bytes → Option Nat) (later : Option TimedBlock) (v : PeerView) :
    b.Moved now tail activity later v ↔
      ¬ (b.timedOut now tail activity ∧
        ∃ l ∈ later, ∃ p ∈ b.outstanding, l.Pickable b.outstanding.head? v p) := by
  constructor
  · rintro hmoved ⟨htimed, l, rfl, p, howner, hpick⟩
    obtain ⟨explore, index, hpick⟩ := exists_pickBlockPeer.mpr hpick
    refine ((hmoved explore index).1 p ?_).1 howner
    simp [checkTimeout, htimed, hpick]
  · intro hnone explore index
    unfold checkTimeout
    split
    · next htimed =>
      cases later with
      | none => simp
      | some l =>
        have hfree : ∀ p ∈ b.outstanding, ¬ l.Pickable b.outstanding.head? v p :=
          fun p howner hpick => hnone ⟨htimed, l, rfl, p, howner, hpick⟩
        cases hpick : l.pickBlockPeer b.outstanding.head? v explore index with
        | some p =>
          have hp := exists_pickBlockPeer.mp ⟨explore, index, hpick⟩
          obtain ⟨q, hq⟩ := Pickable.exists (ne_nil_of_mem hp.1)
          have hcand := mem_candidates.mp hp.1
          grind
        | none => simp [hpick]
    · next htimed => simp [htimed]

def asked (owners : List Bytes) : TimedBlock := { outstanding := owners, requestTime := 1 }

def strangers : PeerView :=
  ⟨false, seconds 5, seconds 6, [[1], [2]], fun _ => none, fun _ => 0⟩

/-- Of two owners only the first is left out. -/
theorem second_owner_asked_again :
    (asked [[1], [2]]).checkTimeout (seconds 5) false (fun _ => none)
      (some (asked [[1], [2]]).cancelled) strangers false 0 = some (.request [2]) := by
  decide

end TimedBlock

section Tail

variable {now k : Nat} {peerId : Bytes}

def Chosen (now : Nat) (peerId : Bytes) (done : List (TimedBlock × Nat)) :
    Option (Nat × Nat) → Prop
  | none => ∀ x ∈ done, x.1.isOpen now peerId = false
  | some (i, owners) =>
    (∃ b, (b, i) ∈ done ∧ b.isOpen now peerId = true ∧ b.outstanding.length = owners) ∧
      ∀ x ∈ done, x.1.isOpen now peerId = true → owners ≤ x.1.outstanding.length

theorem bestBlock_chosen (blocks done : List (TimedBlock × Nat)) (best : Option (Nat × Nat))
    (h : Chosen now peerId done best) :
    Chosen now peerId (done ++ blocks) (bestBlock now peerId best blocks) := by
  induction blocks generalizing done best with
  | nil => simpa [bestBlock] using h
  | cons x blocks ih =>
    rw [append_cons]
    apply ih
    split
    · -- the block takes the place of the best one
      cases best <;> grind [Chosen]
    · cases best <;> grind [Chosen]

/-- The peer can be asked for the block, and no such block has fewer owners. -/
def Assignment.Valid (now : Nat) (a : Assignment) : Prop :=
  ∃ b, a.before[a.block]? = some b ∧ b.isOpen now a.peerId = true ∧
    ∀ b' ∈ a.before, b'.isOpen now a.peerId = true → b.outstanding.length ≤ b'.outstanding.length

theorem bestBlock_valid {p : TimedPiece} {block owners : Nat}
    (h : bestBlock now peerId none p.blocks.zipIdx = some (block, owners)) :
    Assignment.Valid now ⟨k, block, peerId, p.blocks⟩ := by
  have hchosen := bestBlock_chosen p.blocks.zipIdx [] none
    (show Chosen now peerId [] none from forall_mem_nil _)
  rw [h] at hchosen
  obtain ⟨⟨b, hb, hopen, rfl⟩, hleast⟩ := hchosen
  rw [nil_append, mem_zipIdx_iff_getElem?] at hb
  refine ⟨b, hb, hopen, fun b' hb' hopen' => ?_⟩
  obtain ⟨j, hj⟩ := mem_iff_getElem?.mp hb'
  exact hleast (b', j) (by simpa [mem_zipIdx_iff_getElem?] using hj) hopen'

/-- What an assignment does to the owner lists. -/
def Assignment.apply (pieces : List TimedPiece) (a : Assignment) : List TimedPiece :=
  pieces.modify a.piece fun p => { p with blocks := p.blocks.modify a.block (·.addOwner a.peerId) }

theorem modify_eq_set_of_getElem? {α : Type} {l : List α} {i : Nat} {a : α} (h : l[i]? = some a)
    (f : α → α) : l.modify i f = l.set i (f a) := by
  apply ext_getElem?
  grind

theorem outstandingOf_addOwner {pieces : List TimedPiece} {p : TimedPiece} {b : TimedBlock}
    {block : Nat} (hp : pieces[k]? = some p) (hb : p.blocks[block]? = some b) :
    outstandingOf (pieces.set k { p with blocks := p.blocks.modify block (·.addOwner peerId) }) =
      Function.update (outstandingOf pieces) peerId (outstandingOf pieces peerId + 1) := by
  rw [modify_eq_set_of_getElem? hb]
  funext q
  have hpieces := sum_map_set_add hp ⟨p.blocks.set block (b.addOwner peerId), p.lastProgress⟩
    fun p => (p.blocks.map fun b => b.outstanding.count q).sum
  have hblocks := sum_map_set_add hb (b.addOwner peerId) fun b => b.outstanding.count q
  simp only [TimedBlock.addOwner, count_append, count_singleton, outstandingOf,
    Function.update_apply] at *
  grind

namespace TailPass

def given (s : TailPass) (k : Nat) (q : Bytes) : Nat :=
  s.assigned.countP fun a => a.piece = k ∧ a.peerId = q

structure Fair (now : Nat) (start : List TimedPiece) (s : TailPass) : Prop where
  counts : s.perPeerOutstanding = outstandingOf s.pieces
  bound : ∀ q, s.perPeerOutstanding q ≤ max tailBlocksPerPeer (outstandingOf start q)
  valid : ∀ a ∈ s.assigned, a.Valid now
  owners : s.pieces = s.assigned.foldl Assignment.apply start

variable {s : TailPass} {start : List TimedPiece}

theorem Fair.offer (h : s.Fair now start) (k : Nat) (peerId : Bytes) :
    (s.offer now k peerId).Fair now start ∧
      ∀ j q, (s.offer now k peerId).given j q ≤
        s.given j q + if j = k ∧ q = peerId then 1 else 0 := by
  have hsame : s.Fair now start ∧
      ∀ j q, s.given j q ≤ s.given j q + if j = k ∧ q = peerId then 1 else 0 :=
    ⟨h, fun j q => Nat.le_add_right _ _⟩
  unfold TailPass.offer
  split
  · exact hsame
  · next hfree =>
    split
    · exact hsame
    · next p hp =>
      split
      · exact hsame
      · next block owners hbest =>
        have hvalid := bestBlock_valid (k := k) hbest
        have ⟨b, hb, _⟩ := hvalid
        refine ⟨⟨?_, fun q => ?_, ?_, ?_⟩, fun j q => ?_⟩
        · rw [outstandingOf_addOwner hp hb, h.counts]
        · have hq := h.bound q
          simp only [Function.update_apply]
          split <;> grind
        · intro a ha
          rcases mem_append.mp ha with ha | ha
          · exact h.valid a ha
          · rw [mem_singleton.mp ha]
            exact hvalid
        · rw [foldl_append, ← h.owners, foldl_cons, foldl_nil, Assignment.apply,
            modify_eq_set_of_getElem? hp]
        · simp only [given, countP_append, countP_singleton]
          grind

theorem Fair.offers (k : Nat) (peers : List Bytes) (h : s.Fair now start) :
    (peers.foldl (TailPass.offer now k) s).Fair now start ∧
      ∀ j q, (peers.foldl (TailPass.offer now k) s).given j q ≤
        s.given j q + if j = k then peers.count q else 0 := by
  induction peers generalizing s with
  | nil => simpa using h
  | cons p peers ih =>
    obtain ⟨hfair, hgiven⟩ := h.offer k p
    obtain ⟨hfair', hgiven'⟩ := ih hfair
    refine ⟨hfair', fun j q => ?_⟩
    have hone := hgiven j q
    have hrest := hgiven' j q
    rw [foldl_cons, count_cons]
    grind

theorem Fair.serve (available : Nat → List Bytes) (sort : HolderSort) (stuck : List Nat)
    (h : s.Fair now start) :
    (stuck.foldl (TailPass.serve now available sort) s).Fair now start ∧
      ∀ j q, (stuck.foldl (TailPass.serve now available sort) s).given j q ≤
        s.given j q + stuck.count j * (available j).count q := by
  induction stuck generalizing s with
  | nil => simpa using h
  | cons k stuck ih =>
    obtain ⟨hfair, hgiven⟩ := h.offers k (sort s.perPeerOutstanding (available k)).1
    obtain ⟨hfair', hgiven'⟩ := ih hfair
    refine ⟨hfair', fun j q => Nat.le_trans (hgiven' j q) ?_⟩
    have hone := hgiven j q
    rw [(sort s.perPeerOutstanding (available k)).2.count_eq] at hone
    rw [List.count_cons, Nat.add_mul]
    by_cases hj : j = k
    · subst hj
      simp at hone ⊢
      omega
    · simp [hj, Ne.symm hj] at hone ⊢
      omega

end TailPass

variable (now) (available : Nat → List Bytes) (sort : HolderSort) (pieces : List TimedPiece)

theorem fair_tailSchedulerPass :
    (tailSchedulerPass now available sort pieces).Fair now pieces ∧
    ∀ k q, (tailSchedulerPass now available sort pieces).given k q ≤
      if pieces[k]?.any (·.isStuck now) then (available k).count q else 0 := by
  have hstart : TailPass.Fair now pieces ⟨pieces, outstandingOf pieces, []⟩ :=
    ⟨rfl, fun q => Nat.le_max_right _ _, List.forall_mem_nil _, rfl⟩
  unfold tailSchedulerPass
  generalize hstuck : (range pieces.length).filter (fun k => pieces[k]?.any (·.isStuck now)) =
    stuck
  obtain ⟨hfair, hgiven⟩ := hstart.serve available sort stuck
  refine ⟨hfair, fun k q => Nat.le_trans (hgiven k q) ?_⟩
  have hnone : TailPass.given ⟨pieces, outstandingOf pieces, []⟩ k q = 0 := rfl
  rw [hnone, Nat.zero_add]
  -- a piece is in the list of stuck pieces at most once
  split
  · have hcount := nodup_iff_count.mp (hstuck ▸ nodup_range.filter _) k
    simpa using Nat.mul_le_mul_right ((available k).count q) hcount
  · next hnot =>
    rw [List.count_eq_zero.mpr (by simp [← hstuck, hnot]), Nat.zero_mul]

/-- The owner lists change by the assignments of the pass and by nothing else. -/
theorem pieces_tailSchedulerPass :
    (tailSchedulerPass now available sort pieces).pieces =
      (tailSchedulerPass now available sort pieces).assigned.foldl Assignment.apply pieces :=
  (fair_tailSchedulerPass now available sort pieces).1.owners

/-- Distinct holders are given one block of a piece at most. -/
theorem given_tailSchedulerPass_le_one (hnodup : (available k).Nodup) (q : Bytes) :
    (tailSchedulerPass now available sort pieces).given k q ≤ 1 := by
  refine Nat.le_trans ((fair_tailSchedulerPass now available sort pieces).2 k q) ?_
  split
  · exact nodup_iff_count.mp hnodup q
  · exact Nat.zero_le 1

/-- **The tail scheduler.** A pass gives no peer requests beyond `tailBlocksPerPeer`, gives a holder
    one block of a stuck piece for each time it is listed, and none of another piece. Each block it
    gives could be asked of the peer and had the fewest owners of such blocks. -/
theorem tail_scheduler_discipline (now : Nat) (available : Nat → List Bytes) (sort : HolderSort)
    (pieces : List TimedPiece) :
    (∀ q, outstandingOf (tailSchedulerPass now available sort pieces).pieces q ≤
      max tailBlocksPerPeer (outstandingOf pieces q)) ∧
    (∀ k q, (tailSchedulerPass now available sort pieces).given k q ≤
      if pieces[k]?.any (·.isStuck now) then (available k).count q else 0) ∧
    ∀ a ∈ (tailSchedulerPass now available sort pieces).assigned, a.Valid now := by
  obtain ⟨hfair, hgiven⟩ := fair_tailSchedulerPass now available sort pieces
  exact ⟨fun q => hfair.counts ▸ hfair.bound q, hgiven, hfair.valid⟩

end Tail

end P2P
