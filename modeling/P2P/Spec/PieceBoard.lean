import Mathlib.Data.Multiset.UnionInter
import P2P.Native.PieceTasks

/-!
# The life of pieces

What the coroutines of a session do to its pieces, without blocks, peers and files.
-/

namespace P2P

open Function PieceStatus

@[ext]
structure PieceBoard where
  status : List PieceStatus
  completed : Nat
  complete : Bool
  entry : Nat → Option Bool
  busy : Multiset Nat
  announced : Multiset Nat
  verifying : Multiset (Nat × Nat)

inductive PieceEvent where
  | idle
  | start (p : Nat)
  | last (p : Nat)
  | returned (p : Nat)
  | written (p : Nat)
  | removed (p : Nat)
  | verified
  | unverified

namespace PieceBoard

def verifyFrom (b : PieceBoard) (rest : Multiset (Nat × Nat)) (i count : Nat) : PieceBoard :=
  if TorrentSession.nextUnskipped b.status i < b.status.length then
    { b with verifying := (TorrentSession.nextUnskipped b.status i, count) ::ₘ rest }
  else
    { b with
      verifying := rest
      completed := count
      complete := b.complete || decide (count = b.status.length) }

inductive Moves : PieceBoard → PieceEvent → PieceBoard → Prop
  | idle (b : PieceBoard) : Moves b .idle b
  /-- A piece is started; an entry that is there already is kept. -/
  | start (b : PieceBoard) (p : Nat) (full : Bool) (hp : p < b.status.length) :
    Moves b (.start p) { b with
      status := b.status.set p .inProgress
      entry := Function.update b.entry p (some ((b.entry p).getD full)) }
  | last (b : PieceBoard) (p : Nat) (hp : p < b.status.length)
    (hstatus : b.status[p]? ≠ some .have_) (hentry : b.entry p = some false) :
    Moves b (.last p) { b with
      entry := Function.update b.entry p (some true)
      busy := p ::ₘ b.busy }
  | returned (b : PieceBoard) (p : Nat) (rest : Multiset Nat) (hbusy : b.busy = p ::ₘ rest) :
    Moves b (.returned p) { b with
      status := b.status.set p .needed
      entry := Function.update b.entry p none
      busy := rest }
  | written (b : PieceBoard) (p : Nat) (rest : Multiset Nat) (hbusy : b.busy = p ::ₘ rest) :
    Moves b (.written p) { b with
      status := b.status.set p .have_
      completed := b.completed + 1
      busy := rest
      announced := p ::ₘ b.announced }
  | removed (b : PieceBoard) (p : Nat) (rest : Multiset Nat)
    (hannounced : b.announced = p ::ₘ rest) :
    Moves b (.removed p) { b with
      entry := Function.update b.entry p none
      complete := b.complete || decide (b.completed = b.status.length)
      announced := rest }
  | verified (b : PieceBoard) (next count : Nat) (valid : Bool) (rest : Multiset (Nat × Nat))
    (hverifying : b.verifying = (next, count) ::ₘ rest) :
    Moves b .verified
      (verifyFrom { b with status := b.status.set next (if valid then .have_ else .needed) } rest
        (next + 1) (if valid then count + 1 else count))
  | unverified (b : PieceBoard) (x : Nat × Nat) (rest : Multiset (Nat × Nat))
    (hverifying : b.verifying = x ::ₘ rest) :
    Moves b .unverified { b with verifying := rest }

/-! ## What every move keeps -/

structure Sound (b : PieceBoard) : Prop where
  nodup : (b.busy + b.announced).Nodup
  full : ∀ p ∈ b.busy + b.announced, b.entry p = some true
  lt : ∀ p ∈ b.busy + b.announced, p < b.status.length

variable {b b' : PieceBoard} {ev : PieceEvent}

theorem Sound.of_idle (hbusy : b.busy = 0) (hann : b.announced = 0) : b.Sound := by
  have hzero : b.busy + b.announced = 0 := by rw [hbusy, hann, Multiset.add_zero]
  constructor
  · rw [hzero]
    exact Multiset.nodup_zero
  · rw [hzero]
    exact fun p hp => absurd hp (Multiset.notMem_zero p)
  · rw [hzero]
    exact fun p hp => absurd hp (Multiset.notMem_zero p)

theorem Sound.of_eq (h : b.Sound) (hbusy : b'.busy = b.busy) (hann : b'.announced = b.announced)
    (hentry : b'.entry = b.entry) (hlen : b'.status.length = b.status.length) : b'.Sound := by
  constructor
  · rw [hbusy, hann]
    exact h.nodup
  · rw [hbusy, hann, hentry]
    exact h.full
  · rw [hbusy, hann, hlen]
    exact h.lt

theorem Sound.leave (h : b.Sound) {p : Nat} {rest : Multiset Nat}
    (hold : b.busy + b.announced = p ::ₘ rest) (hnew : b'.busy + b'.announced = rest)
    (hentry : b'.entry = update b.entry p none)
    (hlen : b'.status.length = b.status.length) : b'.Sound := by
  have hnodup := h.nodup
  have hfull := h.full
  have hlt := h.lt
  rw [hold] at hnodup hfull hlt
  obtain ⟨hp, hrest⟩ := Multiset.nodup_cons.mp hnodup
  constructor
  · rw [hnew]
    exact hrest
  · rw [hnew, hentry]
    intro q hq
    have hne : q ≠ p := fun h => hp (h ▸ hq)
    rw [update_of_ne hne]
    exact hfull q (Multiset.mem_cons_of_mem hq)
  · rw [hnew, hlen]
    exact fun q hq => hlt q (Multiset.mem_cons_of_mem hq)

theorem verifyFrom_status (b : PieceBoard) (rest : Multiset (Nat × Nat)) (i count : Nat) :
    (b.verifyFrom rest i count).status = b.status := by
  unfold verifyFrom
  split
  · rfl
  · rfl

theorem verifyFrom_tasks (b : PieceBoard) (rest : Multiset (Nat × Nat)) (i count : Nat) :
    (b.verifyFrom rest i count).busy = b.busy ∧
      (b.verifyFrom rest i count).announced = b.announced ∧
      (b.verifyFrom rest i count).entry = b.entry := by
  unfold verifyFrom
  split
  · exact ⟨rfl, rfl, rfl⟩
  · exact ⟨rfl, rfl, rfl⟩

theorem Moves.sound (h : Moves b ev b') (hb : b.Sound) : b'.Sound := by
  cases h with
  | idle => exact hb
  | start p full hp =>
    refine ⟨hb.nodup, fun q hq => ?_, fun q hq => ?_⟩
    · have hfull := hb.full q hq
      grind [update_apply]
    · simpa using hb.lt q hq
  | last p hp hstatus hentry =>
    -- the entry was not full, so the piece is new here
    have hnew : p ∉ b.busy + b.announced := by
      intro hmem
      rw [hb.full p hmem] at hentry
      cases hentry
    have hcons : (p ::ₘ b.busy) + b.announced = p ::ₘ (b.busy + b.announced) :=
      Multiset.cons_add ..
    constructor
    · simpa only [hcons, Multiset.nodup_cons] using ⟨hnew, hb.nodup⟩
    · simp only [hcons, Multiset.mem_cons]
      grind [hb.full, update_apply]
    · simp only [hcons, Multiset.mem_cons]
      exact fun q hq => hq.elim (· ▸ hp) (hb.lt q)
  | returned p rest hbusy =>
    have hold : b.busy + b.announced = p ::ₘ (rest + b.announced) := by
      rw [hbusy, Multiset.cons_add]
    exact hb.leave hold rfl rfl List.length_set
  | written p rest hbusy =>
    have hsame : rest + (p ::ₘ b.announced) = b.busy + b.announced := by
      rw [hbusy, Multiset.cons_add, Multiset.add_cons]
    constructor
    · simpa only [hsame] using hb.nodup
    · simpa only [hsame] using hb.full
    · simpa only [hsame, List.length_set] using hb.lt
  | removed p rest hannounced =>
    have hold : b.busy + b.announced = p ::ₘ (b.busy + rest) := by
      rw [hannounced, Multiset.add_cons]
    exact hb.leave hold rfl rfl rfl
  | verified next count valid rest hverifying =>
    obtain ⟨hbusy, hann, hentry⟩ := verifyFrom_tasks
      { b with status := b.status.set next (if valid then .have_ else .needed) } rest (next + 1)
      (if valid then count + 1 else count)
    apply hb.of_eq hbusy hann hentry
    rw [verifyFrom_status]
    exact List.length_set
  | unverified x rest hverifying => exact hb.of_eq rfl rfl rfl rfl

/-! ## The counter -/

section Count

variable {l : List PieceStatus} {p : Nat} {status : PieceStatus}

theorem count_set_have (hp : p < l.length) (hne : l[p]? ≠ some .have_) :
    (l.set p .have_).count .have_ = l.count .have_ + 1 := by
  have hl : l[p] ≠ .have_ := fun h => hne (h ▸ List.getElem?_eq_getElem hp)
  rw [List.count_set hp]
  simp [hl]

theorem count_set_other (hne : l[p]? ≠ some .have_) (hstatus : status ≠ .have_) :
    (l.set p status).count .have_ = l.count .have_ := by
  by_cases hp : p < l.length
  · have hl : l[p] ≠ .have_ := fun h => hne (h ▸ List.getElem?_eq_getElem hp)
    rw [List.count_set hp]
    simp [hl, hstatus]
  · rw [List.set_eq_of_length_le (Nat.le_of_not_lt hp)]

theorem set_ne_have {q : Nat} (hstatus : status ≠ .have_) (hq : l[q]? ≠ some .have_) :
    (l.set p status)[q]? ≠ some .have_ := by
  rw [List.getElem?_set]
  split
  · split
    · simpa using hstatus
    · exact nofun
  · exact hq

theorem count_take_nextUnskipped (l : List PieceStatus) (i : Nat) :
    (l.take (TorrentSession.nextUnskipped l i)).count .have_ = (l.take i).count .have_ := by
  have htake : (l.drop i).take ((l.drop i).takeWhile (· = .skipped)).length =
      (l.drop i).takeWhile (· = .skipped) :=
    (List.prefix_iff_eq_take.mp (List.takeWhile_prefix _)).symm
  have hnone : ((l.drop i).takeWhile (· = .skipped)).count .have_ = 0 := by
    apply List.count_eq_zero_of_not_mem
    intro hmem
    exact absurd (List.mem_takeWhile_imp hmem) (by decide)
  unfold TorrentSession.nextUnskipped
  rw [List.take_add, List.count_append, htake, hnone, Nat.add_zero]

theorem count_take_succ (l : List PieceStatus) (hp : p < l.length) (valid : Bool) :
    ((l.set p (if valid then .have_ else .needed)).take (p + 1)).count .have_ =
      (if valid then (l.take p).count .have_ + 1 else (l.take p).count .have_) := by
  have hlen : p < (l.set p (if valid then have_ else .needed)).length := by
    rw [List.length_set]
    exact hp
  rw [List.take_succ_eq_append_getElem hlen, List.count_append, List.getElem_set_self,
    List.take_set_of_le (Nat.le_refl p)]
  cases valid with
  | true => rfl
  | false => rfl

end Count

/-- What keeps the counter right: no piece that is there starts, and a verification runs alone. -/
def Careful (b : PieceBoard) : PieceEvent → Prop
  | .idle => True
  | .start p => b.verifying = 0 ∧ b.status[p]? ≠ some .have_
  | .verified => True
  | .unverified => False
  | _ => b.verifying = 0

structure Counted (b : PieceBoard) : Prop extends Sound b where
  busy_status : ∀ p ∈ b.busy, b.status[p]? ≠ some .have_
  count : b.verifying = 0 → b.completed = b.status.count .have_
  seen : b.verifying = 0 ∨ ∃ next count, b.verifying = {(next, count)} ∧ b.busy = 0 ∧
    next < b.status.length ∧ count = (b.status.take next).count .have_

theorem Counted.verification (hb : b.Counted) {next count : Nat} {rest : Multiset (Nat × Nat)}
    (hverifying : b.verifying = (next, count) ::ₘ rest) :
    rest = 0 ∧ b.busy = 0 ∧ next < b.status.length ∧ count = (b.status.take next).count .have_ := by
  cases hb.seen with
  | inl hzero =>
    rw [hzero] at hverifying
    exact absurd hverifying.symm Multiset.cons_ne_zero
  | inr hseen =>
    obtain ⟨next', count', hone, hbusy, hlt, hcount⟩ := hseen
    rw [hone] at hverifying
    obtain ⟨heq, hrest⟩ := (Multiset.singleton_eq_cons_iff rest).mp hverifying
    obtain ⟨rfl, rfl⟩ := Prod.mk.inj heq
    exact ⟨hrest, hbusy, hlt, hcount⟩

theorem Counted.verifyFrom (hb : b.Sound) (hbusy : b.busy = 0) {i count : Nat}
    (hcount : count = (b.status.take i).count .have_) : (b.verifyFrom 0 i count).Counted := by
  have hnext := count_take_nextUnskipped b.status i
  obtain ⟨hbusy', hann, hentry⟩ := verifyFrom_tasks b 0 i count
  have hsound : (b.verifyFrom 0 i count).Sound :=
    hb.of_eq hbusy' hann hentry (congrArg List.length (verifyFrom_status b 0 i count))
  have hidle : ∀ p ∈ (b.verifyFrom 0 i count).busy,
      (b.verifyFrom 0 i count).status[p]? ≠ some .have_ := by
    rw [hbusy', hbusy]
    intro p hp
    exact absurd hp (Multiset.notMem_zero p)
  unfold PieceBoard.verifyFrom at hsound hidle ⊢
  split
  · next hlt =>
    rw [if_pos hlt] at hsound hidle
    refine ⟨hsound, hidle, fun h => ?_, .inr ⟨_, count, rfl, hbusy, hlt, hcount.trans hnext.symm⟩⟩
    dsimp only at h
    exact absurd h Multiset.cons_ne_zero
  · next hge =>
    rw [if_neg hge] at hsound hidle
    refine ⟨hsound, hidle, fun _ => ?_, .inl rfl⟩
    rw [List.take_of_length_le (Nat.le_of_not_lt hge)] at hnext
    exact hcount.trans hnext.symm

theorem Moves.counted (h : Moves b ev b') (hcareful : b.Careful ev) (hb : b.Counted) :
    b'.Counted := by
  have hsound := h.sound hb.toSound
  cases h with
  | idle => exact hb
  | start p full hp =>
    obtain ⟨hidle, hne⟩ := hcareful
    refine ⟨hsound, fun q hq => ?_, fun _ => ?_, .inl hidle⟩
    · exact set_ne_have (by decide) (hb.busy_status q hq)
    · dsimp only
      rw [count_set_other hne (by decide)]
      exact hb.count hidle
  | last p hp hstatus hentry =>
    refine ⟨hsound, fun q hq => ?_, fun _ => hb.count hcareful, .inl hcareful⟩
    cases Multiset.mem_cons.mp hq with
    | inl heq => exact heq ▸ hstatus
    | inr hmem => exact hb.busy_status q hmem
  | returned p rest hbusy =>
    have hp := hb.busy_status p (hbusy ▸ Multiset.mem_cons_self p rest)
    refine ⟨hsound, fun q hq => ?_, fun _ => ?_, .inl hcareful⟩
    · exact set_ne_have (by decide) (hb.busy_status q (hbusy ▸ Multiset.mem_cons_of_mem hq))
    · dsimp only
      rw [count_set_other hp (by decide)]
      exact hb.count hcareful
  | written p rest hbusy =>
    have hmem : p ∈ b.busy := hbusy ▸ Multiset.mem_cons_self p rest
    have hlt : p < b.status.length := hb.lt p (Multiset.mem_add.mpr (.inl hmem))
    have hne := hb.busy_status p hmem
    refine ⟨hsound, fun q hq => ?_, fun _ => ?_, .inl hcareful⟩
    · -- the piece is no longer busy
      have hqp : p ≠ q := by
        have hnodup := hb.nodup
        rw [hbusy, Multiset.cons_add, Multiset.nodup_cons] at hnodup
        intro heq
        exact hnodup.1 (Multiset.mem_add.mpr (.inl (heq ▸ hq)))
      dsimp only
      rw [List.getElem?_set_ne hqp]
      exact hb.busy_status q (hbusy ▸ Multiset.mem_cons_of_mem hq)
    · dsimp only
      rw [count_set_have hlt hne, hb.count hcareful]
  | removed p rest hannounced =>
    exact ⟨hsound, hb.busy_status, fun _ => hb.count hcareful, .inl hcareful⟩
  | verified next count valid rest hverifying =>
    obtain ⟨rfl, hbusy, hlt, hcount⟩ := hb.verification hverifying
    have hset : Sound { b with
        status := b.status.set next (if valid then .have_ else .needed) } :=
      hb.toSound.of_eq rfl rfl rfl List.length_set
    apply Counted.verifyFrom hset hbusy
    dsimp only
    rw [count_take_succ _ hlt, hcount]
  | unverified x rest hverifying => exact hcareful.elim

/-! ## Pieces in progress -/

/-- What keeps the map of pieces in progress right: nothing is started while a verification runs,
    and no piece before its old entry has been removed. -/
def Orderly (b : PieceBoard) : PieceEvent → Prop
  | .start p => b.verifying = 0 ∧ p ∉ b.announced
  | _ => True

/-- The pieces in progress have an entry, and so have the announced ones, which are there. -/
structure Matched (b : PieceBoard) : Prop extends Sound b where
  announced_status : ∀ p ∈ b.announced, b.status[p]? = some .have_
  entry_iff : ∀ p, p ∉ b.announced → (b.status[p]? = some .inProgress ↔ (b.entry p).isSome = true)
  verifying_entry : b.verifying ≠ 0 → ∀ p, b.entry p = none

theorem Matched.of_empty (hbusy : b.busy = 0) (hann : b.announced = 0)
    (hentry : ∀ p, b.entry p = none) (hstatus : ∀ status ∈ b.status, status ≠ .inProgress) :
    b.Matched := by
  refine ⟨.of_idle hbusy hann, fun p hp => ?_, fun p _ => ?_, fun _ => hentry⟩
  · rw [hann] at hp
    exact absurd hp (Multiset.notMem_zero p)
  · rw [hentry p]
    refine iff_of_false (fun h => ?_) nofun
    exact hstatus _ (List.mem_of_getElem? h) rfl

theorem Sound.notMem_announced (hb : b.Sound) {p : Nat} (hp : p ∈ b.busy) : p ∉ b.announced :=
  Multiset.disjoint_left.mp (Multiset.nodup_add.mp hb.nodup).2.2 hp

theorem Moves.matched (h : Moves b ev b') (horderly : b.Orderly ev) (hb : b.Matched) :
    b'.Matched := by
  have hsound := h.sound hb.toSound
  cases h with
  | idle => exact hb
  | start p full hp =>
    obtain ⟨hidle, hnew⟩ := horderly
    refine ⟨hsound, fun q hq => ?_, fun q hq => ?_, fun h => absurd hidle h⟩
    · have hstatus := hb.announced_status q hq
      grind
    · have hiff := hb.entry_iff q hq
      grind [update_apply]
  | last p hp hstatus hentry =>
    refine ⟨hsound, hb.announced_status, fun q hq => ?_, fun hverifying => ?_⟩
    · have hiff := hb.entry_iff q hq
      grind [update_apply]
    · rw [hb.verifying_entry hverifying p] at hentry
      cases hentry
  | returned p rest hbusy =>
    have hmem : p ∈ b.busy := hbusy ▸ Multiset.mem_cons_self p rest
    have hnot := hb.notMem_announced hmem
    refine ⟨hsound, fun q hq => ?_, fun q hq => ?_, fun hverifying q => ?_⟩
    · have hstatus := hb.announced_status q hq
      grind
    · have hiff := hb.entry_iff q hq
      grind [update_apply]
    · dsimp only
      rw [update_apply, hb.verifying_entry hverifying q, ite_self]
  | written p rest hbusy =>
    have hmem : p ∈ b.busy := hbusy ▸ Multiset.mem_cons_self p rest
    have hlt : p < b.status.length := hb.lt p (Multiset.mem_add.mpr (.inl hmem))
    refine ⟨hsound, fun q hq => ?_, fun q hq => ?_, hb.verifying_entry⟩
    · rw [Multiset.mem_cons] at hq
      grind [hb.announced_status q]
    · rw [Multiset.mem_cons] at hq
      grind [hb.entry_iff q]
  | removed p rest hannounced =>
    have hmem : p ∈ b.announced := hannounced ▸ Multiset.mem_cons_self p rest
    refine ⟨hsound, fun q hq => ?_, fun q hq => ?_, fun hverifying q => ?_⟩
    · exact hb.announced_status q (hannounced ▸ Multiset.mem_cons_of_mem hq)
    · have hiff := hb.entry_iff q
      rw [hannounced, Multiset.mem_cons] at hiff
      grind [hb.announced_status, update_apply]
    · dsimp only
      rw [update_apply, hb.verifying_entry hverifying q, ite_self]
  | verified next count valid rest hverifying =>
    have hnone : ∀ p, b.entry p = none :=
      hb.verifying_entry (hverifying ▸ Multiset.cons_ne_zero)
    -- without entries nothing is announced
    have hann : ∀ p, p ∉ b.announced := by
      intro p hp
      have hfull := hb.full p (Multiset.mem_add.mpr (.inr hp))
      rw [hnone p] at hfull
      cases hfull
    obtain ⟨-, hann', hentry⟩ := verifyFrom_tasks
      { b with status := b.status.set next (if valid then .have_ else .needed) } rest (next + 1)
      (if valid then count + 1 else count)
    refine ⟨hsound, fun q hq => ?_, fun q hq => ?_, fun _ q => ?_⟩
    · rw [hann'] at hq
      exact absurd hq (hann q)
    · rw [verifyFrom_status, hentry, hnone q]
      have hq' := (hb.entry_iff q (hann q)).not.mpr (by rw [hnone q]; exact nofun)
      refine iff_of_false ?_ nofun
      cases valid <;> grind
    · rw [hentry]
      exact hnone q
  | unverified x rest hverifying =>
    refine ⟨hsound, hb.announced_status, hb.entry_iff, fun _ => ?_⟩
    exact hb.verifying_entry (hverifying ▸ Multiset.cons_ne_zero)

/-! ## The end of a download -/

/-- The flag is set when the last piece is there and no entry waits to be removed. -/
structure Finished (b : PieceBoard) : Prop extends Counted b where
  nonempty : 0 < b.status.length
  unskipped : skipped ∉ b.status
  all_of_complete : b.complete = true → b.verifying = 0 ∧ b.completed = b.status.length
  complete_of_all : b.verifying = 0 → b.announced = 0 → b.completed = b.status.length →
    b.complete = true

theorem unskipped_set {l : List PieceStatus} {p : Nat} {status : PieceStatus}
    (hstatus : status ≠ .skipped) (hl : skipped ∉ l) :
    skipped ∉ l.set p status := by
  intro hmem
  cases List.mem_or_eq_of_mem_set hmem with
  | inl hold => exact hl hold
  | inr heq => exact hstatus heq.symm

theorem Finished.not_complete (hb : b.Finished) {p : Nat} (hp : p ∈ b.busy) :
    b.complete = false := by
  rw [Bool.eq_false_iff]
  intro hcomplete
  obtain ⟨hidle, hall⟩ := hb.all_of_complete hcomplete
  have hlt := hb.lt p (Multiset.mem_add.mpr (.inl hp))
  rw [hb.count hidle, List.count_eq_length] at hall
  apply hb.busy_status p hp
  rw [List.getElem?_eq_getElem hlt, hall _ (List.getElem_mem hlt)]

theorem Finished.verifyFrom (hb : (b.verifyFrom 0 i count).Counted) (hpos : 0 < b.status.length)
    (hskip : skipped ∉ b.status) (hcomplete : b.complete = false) :
    (b.verifyFrom 0 i count).Finished := by
  have hstatus := verifyFrom_status b 0 i count
  refine ⟨hb, hstatus.symm ▸ hpos, hstatus.symm ▸ hskip, ?_, ?_⟩
  · intro h
    unfold PieceBoard.verifyFrom at h ⊢
    split at h
    · rw [hcomplete] at h
      exact nomatch h
    · next hge =>
      rw [if_neg hge]
      rw [hcomplete, Bool.false_or, decide_eq_true_eq] at h
      exact ⟨rfl, h⟩
  · intro hidle _ hall
    unfold PieceBoard.verifyFrom at hidle hall ⊢
    split at hidle
    · dsimp only at hidle
      exact absurd hidle Multiset.cons_ne_zero
    · next hge =>
      rw [if_neg hge] at hall ⊢
      dsimp only at hall ⊢
      rw [decide_eq_true hall, Bool.or_true]

theorem Finished.of_eq (hb : b.Finished) (hcounted : b'.Counted)
    (hlen : b'.status.length = b.status.length) (hskip : skipped ∉ b'.status)
    (hcompleted : b'.completed = b.completed) (hcomplete : b'.complete = b.complete)
    (hann : b'.announced = b.announced) (hverifying : b'.verifying = b.verifying) :
    b'.Finished := by
  refine ⟨hcounted, hlen ▸ hb.nonempty, hskip, ?_, ?_⟩
  · rw [hcomplete, hverifying, hcompleted, hlen]
    exact hb.all_of_complete
  · rw [hcomplete, hann, hverifying, hcompleted, hlen]
    exact hb.complete_of_all

theorem Moves.finished (h : Moves b ev b') (hcareful : b.Careful ev) (hb : b.Finished) :
    b'.Finished := by
  have hcounted := h.counted hcareful hb.toCounted
  cases h with
  | idle => exact hb
  | start | returned =>
    exact hb.of_eq hcounted List.length_set (unskipped_set (by decide) hb.unskipped) rfl rfl rfl rfl
  | last p hp hstatus hentry =>
    exact hb.of_eq hcounted rfl hb.unskipped rfl rfl rfl rfl
  | written p rest hbusy =>
    have hfalse := hb.not_complete (hbusy ▸ Multiset.mem_cons_self p rest)
    refine ⟨hcounted, ?_, unskipped_set (by decide) hb.unskipped, fun h => ?_, fun _ h => ?_⟩
    · dsimp only
      rw [List.length_set]
      exact hb.nonempty
    · dsimp only at h
      rw [hfalse] at h
      cases h
    · exact absurd h Multiset.cons_ne_zero
  | removed p rest hannounced =>
    refine ⟨hcounted, hb.nonempty, hb.unskipped, fun h => ?_, fun _ _ h => ?_⟩
    · dsimp only at h ⊢
      rw [Bool.or_eq_true, decide_eq_true_eq] at h
      cases h with
      | inl hold => exact hb.all_of_complete hold
      | inr hall => exact ⟨hcareful, hall⟩
    · dsimp only at h ⊢
      rw [decide_eq_true h, Bool.or_true]
  | verified next count valid rest hverifying =>
    obtain ⟨rfl, -⟩ := hb.verification hverifying
    have hfalse : b.complete = false := by
      rw [Bool.eq_false_iff]
      intro h
      rw [(hb.all_of_complete h).1] at hverifying
      exact absurd hverifying.symm Multiset.cons_ne_zero
    refine Finished.verifyFrom hcounted ?_ (unskipped_set ?_ hb.unskipped) hfalse
    · dsimp only
      rw [List.length_set]
      exact hb.nonempty
    · cases valid with
      | true => decide
      | false => decide
  | unverified x rest hverifying => exact hcareful.elim

end PieceBoard

end P2P
