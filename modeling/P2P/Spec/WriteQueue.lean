import P2P.ForStd.Tasks
import P2P.Native.WriteQueue
import P2P.Spec.Framing

/-!
# The order of frames on the wire

However the steps of the writing coroutines interleave, one of them is the drain as long as
`writing` is set, and none otherwise.
-/

namespace P2P

open AsyncSocket List WriteStage

/-! ## What a call holds -/

namespace WriteStage

def active : WriteStage → Bool
  | .draining | .taken _ | .sending .. | .failing _ => true
  | _ => false

/-- The entry a call has taken off the queue and not written yet. -/
def held : WriteStage → List PendingWrite
  | .taken entry | .sending entry _ => [entry]
  | _ => []

def inFlight : WriteStage → List PendingWrite
  | .sending entry _ => [entry]
  | _ => []

def left : WriteStage → Bytes
  | .sending _ rest => rest
  | _ => []

def quiet : WriteStage → Bool
  | .waiting | .returned | .thrown _ => true
  | _ => false

theorem held_of_not_active : ∀ st, active st = false → held st = [] := by
  intro st h
  cases st <;> first | rfl | cases h

theorem inFlight_of_not_active : ∀ st, active st = false → inFlight st = [] := by
  intro st h
  cases st <;> first | rfl | cases h

theorem left_of_not_active : ∀ st, active st = false → left st = [] := by
  intro st h
  cases st <;> first | rfl | cases h

end WriteStage

namespace WriteQueue

variable {s s' : WriteQueue} {k : Option Rc4} {st : WriteStage}

def held (s : WriteQueue) : List PendingWrite := s.calls.flatMap WriteStage.held

def inFlight (s : WriteQueue) : List PendingWrite := s.calls.flatMap WriteStage.inFlight

def left (s : WriteQueue) : Bytes := s.calls.flatMap WriteStage.left

def entries (s : WriteQueue) : List PendingWrite := s.frames.mapIdx fun i frame => ⟨frame, i⟩

/-- No write is in flight and no call is between two steps. -/
def Quiet (s : WriteQueue) : Prop := ∀ st ∈ s.calls, st.quiet = true

/-! ## Steps -/

inductive Moves (s : WriteQueue) : WriteStep → WriteQueue → Prop
  | enqueue (frame : Bytes) : Moves s (.enqueue frame) (s.enqueue frame)
  | popLast {i : Nat} (h : s.calls[i]? = some .draining) (hq : s.queue = []) :
      Moves s (.pop i) { s.goTo i .returned with writing := false }
  | popEntry {i : Nat} {entry : PendingWrite} {queue : List PendingWrite}
      (h : s.calls[i]? = some .draining) (hq : s.queue = entry :: queue) :
      Moves s (.pop i) { s.goTo i (.taken entry) with queue }
  | start {i : Nat} {entry : PendingWrite} (h : s.calls[i]? = some (.taken entry)) :
      Moves s (.start i) (s.start i entry)
  | transmit {i : Nat} {entry : PendingWrite} {rest : Bytes} {count : Nat}
      (h : s.calls[i]? = some (.sending entry rest)) (hok : s.broken = false)
      (h0 : 0 < count) (hle : count ≤ rest.length) :
      Moves s (.transmit i count) (s.transmit i entry rest count)
  | written {i : Nat} {entry : PendingWrite} (h : s.calls[i]? = some (.sending entry []))
      (hok : s.broken = false) : Moves s (.written i) (s.written i entry)
  | writeFailed {i : Nat} {entry : PendingWrite} {rest : Bytes} {ec : ErrorCode}
      (h : s.calls[i]? = some (.sending entry rest)) :
      Moves s (.writeFailed i ec) (s.writeFailed i entry ec)
  | failAll {i : Nat} {ec : ErrorCode} (h : s.calls[i]? = some (.failing ec)) :
      Moves s (.failAll i) (s.failAll i ec)
  | notify {i : Nat} {ec : ErrorCode} {entry : PendingWrite} {remaining : List PendingWrite}
      (h : s.calls[i]? = some (.notifying ec (entry :: remaining))) :
      Moves s (.notify i) (s.notify i ec entry remaining)
  | rethrow {i : Nat} {ec : ErrorCode} (h : s.calls[i]? = some (.notifying ec [])) :
      Moves s (.notify i) (s.goTo i (.thrown ec))
  | wake {i : Nat} (h : s.calls[i]? = some .waiting) : Moves s (.wake i) (s.goTo i (s.afterWait i))

theorem step_moves {a : WriteStep} (h : s.step a = some s') : Moves s a s' := by
  cases a with simp only [step] at h
  | enqueue frame =>
    cases h
    exact .enqueue frame
  | pop i =>
    split at h
    next hcall =>
      cases h
      cases hq : s.queue with simp only [pop, hq]
      | nil =>
        exact .popLast hcall hq
      | cons entry queue =>
        exact .popEntry hcall hq
    next => cases h
  | start i =>
    split at h
    next entry hcall =>
      cases h
      exact .start hcall
    next => cases h
  | transmit i count =>
    split at h
    next entry rest hcall =>
      split at h
      next hok =>
        cases h
        exact .transmit hcall hok.1 hok.2.1 hok.2.2
      next => cases h
    next => cases h
  | written i =>
    split at h
    next entry hcall =>
      split at h
      next hok =>
        cases h
        exact .written hcall hok
      next => cases h
    next => cases h
  | writeFailed i ec =>
    split at h
    next entry rest hcall =>
      cases h
      exact .writeFailed hcall
    next => cases h
  | failAll i =>
    split at h
    next ec hcall =>
      cases h
      exact .failAll hcall
    next => cases h
  | notify i =>
    split at h
    next ec entry remaining hcall =>
      cases h
      exact .notify hcall
    next ec hcall =>
      cases h
      exact .rethrow hcall
    next => cases h
  | wake i =>
    split at h
    next hcall =>
      cases h
      exact .wake hcall
    next => cases h

theorem afterWait_quiet (s : WriteQueue) (i : Nat) :
    (s.afterWait i).active = false ∧ (s.afterWait i).quiet = true := by
  unfold afterWait
  split <;> exact ⟨rfl, rfl⟩

/-! ## The hand-over -/

structure Order (k : Option Rc4) (s : WriteQueue) (n : Nat) : Prop where
  le : n ≤ s.frames.length
  entries_drop : s.held ++ s.queue = s.entries.drop n
  cipher : wireCipher.crypt k (s.frames.take n ++ s.inFlight.map PendingWrite.frame).flatten =
    (s.wire ++ s.left, s.socket.outgoing)
  left_le : s.left.length ≤ (s.inFlight.map PendingWrite.frame).flatten.length

/-- There is one drain while `writing` is set and none otherwise, and up to the first error the
    frames are in order. -/
structure Serial (k : Option Rc4) (s : WriteQueue) : Prop where
  length_calls : s.calls.length = s.frames.length
  drains : s.calls.countP WriteStage.active = s.writing.toNat
  idle : s.writing = false → s.queue = []
  failed : ∀ ec, .failing ec ∈ s.calls → s.broken = true
  order : s.broken = false → ∃ n, Order k s n

variable {i : Nat}

theorem Serial.active (h : Serial k s) (hi : s.calls[i]? = some st) (ha : st.active = true) :
    s.writing = true ∧ s.held = st.held ∧ s.inFlight = st.inFlight ∧ s.left = st.left ∧
      ∀ st', (s.goTo i st').calls.countP active = st'.active.toNat ∧
        (s.goTo i st').held = st'.held ∧ (s.goTo i st').inFlight = st'.inFlight ∧
        (s.goTo i st').left = st'.left := by
  have hwriting : s.writing = true := by
    have hpos : 0 < s.calls.countP WriteStage.active :=
      countP_pos_iff.mpr ⟨st, mem_of_getElem? hi, ha⟩
    rw [h.drains] at hpos
    cases hw : s.writing with
    | false => simp [hw] at hpos
    | true => rfl
  have hone : s.calls.countP WriteStage.active = 1 := by rw [h.drains, hwriting]; rfl
  obtain ⟨hheld, hheld'⟩ :=
    flatMap_set_of_pos held_of_not_active hi ha hone.le
  obtain ⟨hflight, hflight'⟩ :=
    flatMap_set_of_pos inFlight_of_not_active hi ha hone.le
  obtain ⟨hleft, hleft'⟩ :=
    flatMap_set_of_pos left_of_not_active hi ha hone.le
  refine ⟨hwriting, hheld, hflight, hleft, fun st' => ⟨?_, hheld' st', hflight' st', hleft' st'⟩⟩
  have hset := countP_set_add hi st' WriteStage.active
  rw [ha, hone, Bool.toNat_true] at hset
  simp only [goTo]
  omega

variable {st' : WriteStage}

theorem goTo_inactive (hi : s.calls[i]? = some st) (ha : st.active = false)
    (ha' : st'.active = false) :
    (s.goTo i st').calls.countP active = s.calls.countP active ∧
      (s.goTo i st').held = s.held ∧ (s.goTo i st').inFlight = s.inFlight ∧
      (s.goTo i st').left = s.left := by
  have hset := countP_set_add hi st' active
  rw [ha, ha'] at hset
  exact ⟨by simpa [goTo] using hset,
    flatMap_set_of_neg held_of_not_active hi ha ha',
    flatMap_set_of_neg inFlight_of_not_active hi ha ha',
    flatMap_set_of_neg left_of_not_active hi ha ha'⟩

@[simp] theorem length_goTo (i : Nat) (st : WriteStage) :
    (s.goTo i st).calls.length = s.calls.length := length_set ..

theorem failing_goTo {ec : ErrorCode} (h : .failing ec ∈ (s.goTo i st).calls) :
    .failing ec ∈ s.calls ∨ .failing ec = st := mem_or_eq_of_mem_set h

variable {n : Nat} {entry : PendingWrite}

theorem entries_next {queue : List PendingWrite} (h : entry :: queue = s.entries.drop n) :
    n < s.frames.length ∧ s.frames.take (n + 1) = s.frames.take n ++ [entry.frame] ∧
      s.entries.drop (n + 1) = queue := by
  have hget : s.entries[n]? = some entry := by
    rw [← head?_drop, ← h, head?_cons]
  rw [entries, getElem?_mapIdx, Option.map_eq_some_iff] at hget
  obtain ⟨frame, hframe, rfl⟩ := hget
  refine ⟨(List.getElem?_eq_some_iff.mp hframe).1, ?_, ?_⟩
  · rw [List.take_add_one, hframe, Option.toList_some]
  · rw [← List.tail_drop, ← h, List.tail_cons]

/-! ### What each step keeps -/

@[simp] theorem enqueue_held (frame : Bytes) : (s.enqueue frame).held = s.held := by
  cases hw : s.writing <;> simp [held, enqueue, hw, WriteStage.held]

@[simp] theorem enqueue_inFlight (frame : Bytes) : (s.enqueue frame).inFlight = s.inFlight := by
  cases hw : s.writing <;> simp [inFlight, enqueue, hw, WriteStage.inFlight]

@[simp] theorem enqueue_left (frame : Bytes) : (s.enqueue frame).left = s.left := by
  cases hw : s.writing <;> simp [left, enqueue, hw, WriteStage.left]

theorem Order.enqueue (hlen : s.calls.length = s.frames.length) (h : Order k s n) (frame : Bytes) :
    Order k (s.enqueue frame) n := by
  have hentries : (s.enqueue frame).entries = s.entries ++ [⟨frame, s.calls.length⟩] := by
    simp [entries, WriteQueue.enqueue, mapIdx_concat, hlen]
  refine ⟨?_, ?_, ?_, ?_⟩
  · simp only [WriteQueue.enqueue, length_append]
    exact Nat.le_add_right_of_le h.le
  · rw [enqueue_held, hentries, drop_append_of_le_length (by simpa [entries] using h.le),
      ← h.entries_drop, append_assoc]
    rfl
  · rw [enqueue_inFlight, enqueue_left]
    simp only [WriteQueue.enqueue, take_append_of_le_length h.le]
    exact h.cipher
  · rw [enqueue_inFlight, enqueue_left]
    exact h.left_le

theorem Order.congr (h : Order k s n) (hframes : s'.frames = s.frames)
    (hheld : s'.held ++ s'.queue = s.held ++ s.queue) (hflight : s'.inFlight = s.inFlight)
    (hleft : s'.left = s.left) (hwire : s'.wire = s.wire) (hsocket : s'.socket = s.socket) :
    Order k s' n := by
  refine ⟨hframes ▸ h.le, ?_, ?_, ?_⟩
  · rw [hheld, h.entries_drop, entries, entries, hframes]
  · rw [hframes, hflight, hleft, hwire, hsocket, h.cipher]
  · rw [hleft, hflight]
    exact h.left_le

section

variable (h : Order k s n) (hs : Serial k s) (hi : s.calls[i]? = some st) (ha : st.active = true)

include h hs hi ha

theorem Order.active : st.held ++ s.queue = s.entries.drop n ∧
    wireCipher.crypt k (s.frames.take n ++ st.inFlight.map PendingWrite.frame).flatten =
      (s.wire ++ st.left, s.socket.outgoing) ∧
    st.left.length ≤ (st.inFlight.map PendingWrite.frame).flatten.length := by
  obtain ⟨-, hheld, hflight, hleft, -⟩ := hs.active hi ha
  rw [← hheld, ← hflight, ← hleft]
  exact ⟨h.entries_drop, h.cipher, h.left_le⟩

omit h

theorem Order.of_goTo (hcalls : s'.calls = (s.goTo i st').calls) (hframes : s'.frames = s.frames)
    (hn : n ≤ s.frames.length) (hentries : st'.held ++ s'.queue = s.entries.drop n)
    (hcipher : wireCipher.crypt k (s.frames.take n ++ st'.inFlight.map PendingWrite.frame).flatten =
      (s'.wire ++ st'.left, s'.socket.outgoing))
    (hle : st'.left.length ≤ (st'.inFlight.map PendingWrite.frame).flatten.length) :
    Order k s' n := by
  obtain ⟨-, hheld, hflight, hleft⟩ := (hs.active hi ha).2.2.2.2 st'
  rw [held, ← hcalls, ← held] at hheld
  rw [inFlight, ← hcalls, ← inFlight] at hflight
  rw [left, ← hcalls, ← left] at hleft
  refine ⟨hframes ▸ hn, ?_, ?_, ?_⟩
  · rw [hheld, hentries, entries, entries, hframes]
  · rw [hflight, hleft, hframes, hcipher]
  · rw [hflight, hleft]
    exact hle

end

section

variable (h : Order k s n) (hs : Serial k s)

include h hs

theorem Order.start (hi : s.calls[i]? = some (.taken entry)) : Order k (s.start i entry) n := by
  obtain ⟨hentries, hcipher, -⟩ := h.active hs hi rfl
  obtain ⟨hout, hkey, -, -⟩ := encryptOutgoing_spec s.socket entry.frame
  simp only [WriteStage.inFlight, WriteStage.left, map_nil, append_nil] at hcipher
  refine .of_goTo hs hi rfl rfl rfl h.le hentries ?_ ?_
  · rw [flatten_append, StreamCipher.crypt_append, hcipher]
    simp [WriteStage.inFlight, WriteStage.left, WriteQueue.start, goTo, hout, hkey]
  · simp [WriteStage.inFlight, WriteStage.left, hout]

theorem Order.transmit {count : Nat} {rest : Bytes}
    (hi : s.calls[i]? = some (.sending entry rest)) :
    Order k (s.transmit i entry rest count) n := by
  obtain ⟨hentries, hcipher, hle⟩ := h.active hs hi rfl
  refine .of_goTo hs hi rfl rfl rfl h.le hentries ?_ ?_
  · change _ = (s.wire ++ rest.take count ++ rest.drop count, s.socket.outgoing)
    rw [append_assoc, take_append_drop]
    exact hcipher
  · simp only [WriteStage.inFlight, WriteStage.left, length_drop] at hle ⊢
    omega

theorem Order.written (hi : s.calls[i]? = some (.sending entry [])) :
    Order k (s.written i entry) (n + 1) := by
  obtain ⟨hentries, hcipher, -⟩ := h.active hs hi rfl
  obtain ⟨hlt, htake, hdrop⟩ := entries_next hentries
  refine .of_goTo hs hi rfl rfl rfl hlt hdrop.symm ?_ (Nat.zero_le _)
  rw [htake]
  simpa [WriteStage.inFlight, WriteStage.left, WriteQueue.written, goTo] using hcipher

end

theorem Serial.of_active (h : Serial k s) (hi : s.calls[i]? = some st) (ha : st.active = true)
    (hcalls : s'.calls = (s.goTo i st').calls) (hframes : s'.frames = s.frames)
    (hwriting : s'.writing = st'.active) (hidle : st'.active = false → s'.queue = [])
    (hbroken : s'.broken = s.broken ∧ (∀ ec, st' ≠ .failing ec) ∨ s'.broken = true)
    (horder : s'.broken = false → ∀ n, Order k s n → ∃ m, Order k s' m) : Serial k s' := by
  obtain ⟨-, -, -, -, hgo⟩ := h.active hi ha
  refine ⟨?_, ?_, ?_, ?_, ?_⟩
  · rw [hcalls, length_goTo, hframes, h.length_calls]
  · rw [hcalls, (hgo st').1, hwriting]
  · rw [hwriting]
    exact hidle
  · intro ec hmem
    rw [hcalls] at hmem
    obtain ⟨heq, hne⟩ | heq := hbroken
    · rw [heq]
      exact h.failed ec ((failing_goTo hmem).resolve_right (hne ec).symm)
    · exact heq
  · intro hok
    obtain ⟨heq, -⟩ | heq := hbroken
    · obtain ⟨n, hn⟩ := h.order (heq.symm.trans hok)
      exact horder hok n hn
    · exact absurd (heq.symm.trans hok) (by simp)

theorem Serial.of_inactive (h : Serial k s) (hi : s.calls[i]? = some st) (ha : st.active = false)
    (ha' : st'.active = false) (hcalls : s'.calls = (s.goTo i st').calls)
    (hframes : s'.frames = s.frames) (hwriting : s'.writing = s.writing)
    (hqueue : s'.queue = s.queue) (hbroken : s'.broken = s.broken) (hwire : s'.wire = s.wire)
    (hsocket : s'.socket = s.socket) : Serial k s' := by
  obtain ⟨hcount, hheld, hflight, hleft⟩ := goTo_inactive hi ha ha'
  refine ⟨?_, ?_, ?_, ?_, ?_⟩
  · rw [hcalls, length_goTo, hframes, h.length_calls]
  · rw [hcalls, hcount, hwriting, h.drains]
  · rw [hwriting, hqueue]
    exact h.idle
  · intro ec hmem
    rw [hcalls] at hmem
    rw [hbroken]
    refine h.failed ec ((failing_goTo hmem).resolve_right ?_)
    rintro rfl
    cases ha'
  · rw [hbroken]
    intro hok
    obtain ⟨n, hn⟩ := h.order hok
    refine ⟨n, hn.congr hframes ?_ ?_ ?_ hwire hsocket⟩
    · rw [held, hcalls, hqueue, ← hheld, held]
    · rw [inFlight, hcalls, ← hflight, inFlight]
    · rw [left, hcalls, ← hleft, left]

theorem Serial.enqueue (h : Serial k s) (frame : Bytes) : Serial k (s.enqueue frame) := by
  refine ⟨by simp [WriteQueue.enqueue, h.length_calls], ?_, ?_, ?_, ?_⟩
  · -- the new call is the drain exactly when there was none
    simp only [WriteQueue.enqueue, countP_append, h.drains]
    cases s.writing <;> rfl
  · intro hw
    cases hw
  · intro ec hmem
    simp only [WriteQueue.enqueue, mem_append, mem_singleton] at hmem
    refine h.failed ec (hmem.resolve_right ?_)
    cases s.writing <;> simp
  · intro hok
    obtain ⟨n, hn⟩ := h.order hok
    exact ⟨n, hn.enqueue h.length_calls frame⟩

theorem Serial.step {a : WriteStep} (h : Serial k s) (hstep : s.step a = some s') :
    Serial k s' := by
  cases step_moves hstep with
  | enqueue frame => exact h.enqueue frame
  | popLast hi hq =>
    refine h.of_active hi rfl rfl rfl rfl (fun _ => hq) (.inl ⟨rfl, by simp⟩) fun _ n hn => ⟨n, ?_⟩
    obtain ⟨hentries, hcipher, hle⟩ := hn.active h hi rfl
    exact .of_goTo h hi rfl rfl rfl hn.le hentries hcipher hle
  | popEntry hi hq =>
    refine h.of_active hi rfl rfl rfl (h.active hi rfl).1 (by simp [WriteStage.active])
      (.inl ⟨rfl, by simp⟩) fun _ n hn => ⟨n, ?_⟩
    obtain ⟨hentries, hcipher, hle⟩ := hn.active h hi rfl
    rw [hq] at hentries
    exact .of_goTo h hi rfl rfl rfl hn.le hentries hcipher hle
  | start hi =>
    exact h.of_active hi rfl rfl rfl (h.active hi rfl).1 (by simp [WriteStage.active])
      (.inl ⟨rfl, by simp⟩) fun _ n hn => ⟨n, hn.start h hi⟩
  | transmit hi hok h0 hle =>
    exact h.of_active hi rfl rfl rfl (h.active hi rfl).1 (by simp [WriteStage.active])
      (.inl ⟨rfl, by simp⟩) fun _ n hn => ⟨n, hn.transmit h hi⟩
  | written hi hok =>
    exact h.of_active hi rfl rfl rfl (h.active hi rfl).1 (by simp [WriteStage.active])
      (.inl ⟨rfl, by simp⟩) fun _ n hn => ⟨n + 1, hn.written h hi⟩
  | writeFailed hi =>
    exact h.of_active hi rfl rfl rfl (h.active hi rfl).1 (by simp [WriteStage.active])
      (.inr rfl) (by simp [writeFailed])
  | failAll hi =>
    have hbroken : s.broken = true := h.failed _ (mem_of_getElem? hi)
    exact h.of_active hi rfl rfl rfl rfl (fun _ => rfl) (.inr hbroken)
      (by simp [failAll, goTo, hbroken])
  | notify hi => exact h.of_inactive hi rfl rfl rfl rfl rfl rfl rfl rfl rfl
  | rethrow hi => exact h.of_inactive hi rfl rfl rfl rfl rfl rfl rfl rfl rfl
  | wake hi =>
    exact h.of_inactive hi rfl (afterWait_quiet s _).1 rfl rfl rfl rfl rfl rfl rfl

/-! ## The wire -/

theorem serial_init (socket : AsyncSocket) : Serial socket.outgoing { socket } :=
  ⟨rfl, rfl, fun _ => rfl, by simp, fun _ => ⟨0, Nat.le_refl 0, rfl, rfl, Nat.le_refl 0⟩⟩

theorem Serial.exists_drain (h : Serial k s) :
    ∃ st : WriteStage, s.held = st.held ∧ s.inFlight = st.inFlight := by
  by_cases hnone : s.calls.countP WriteStage.active = 0
  · exact ⟨.returned, flatMap_eq_nil_of_countP WriteStage.held_of_not_active hnone,
      flatMap_eq_nil_of_countP inFlight_of_not_active hnone⟩
  · obtain ⟨st, hmem, ha⟩ := countP_pos_iff.mp (Nat.pos_of_ne_zero hnone)
    obtain ⟨i, hi⟩ := mem_iff_getElem?.mp hmem
    obtain ⟨-, hheld, hflight, -, -⟩ := h.active hi ha
    exact ⟨st, hheld, hflight⟩

theorem Serial.queue_of_quiet (h : Serial k s) (hquiet : s.Quiet) : s.queue = [] := by
  apply h.idle
  have hnone : s.calls.countP WriteStage.active = 0 := by
    rw [countP_eq_zero]
    intro st hst hact
    have hq := hquiet st hst
    cases st <;> simp_all [WriteStage.active, WriteStage.quiet]
  rw [h.drains] at hnone
  simpa using hnone

theorem Order.wire {n : Nat} (h : Order k s n) :
    ∃ part, s.wire = (wireCipher.crypt k (s.frames.take n).flatten).1 ++ part ∧
      part <+: (wireCipher.crypt (wireCipher.crypt k (s.frames.take n).flatten).2
        (s.inFlight.map PendingWrite.frame).flatten).1 := by
  have hcipher := congrArg Prod.fst h.cipher
  have hle := h.left_le
  rw [flatten_append, StreamCipher.crypt_append] at hcipher
  obtain ⟨as, hwire, hleft⟩ | ⟨part, hwire, hpart⟩ := append_eq_append_iff.mp hcipher.symm
  · -- then nothing of the frame in flight has been sent
    have hlen := congrArg List.length hleft
    rw [length_append, StreamCipher.length_crypt] at hlen
    obtain rfl : as = [] := length_eq_zero_iff.mp (by omega)
    exact ⟨[], by simpa using hwire.symm, nil_prefix⟩
  · exact ⟨part, hwire, hpart ▸ prefix_append ..⟩

/-- **Frames go out whole and in order.** Whatever the interleaving of any calls, one write is in
    flight at most, and nothing is queued when the calls are quiet. -/
theorem wire_order {socket : AsyncSocket} {es : List WriteStep}
    (hrun : runSteps step es { socket } = some s) :
    s.inFlight.length ≤ 1 ∧ (s.Quiet → s.queue = []) ∧
      (s.broken = false → ∃ n part,
        s.frames.take n ++ s.inFlight.map PendingWrite.frame =
          s.frames.take (n + s.inFlight.length) ∧
        s.wire = (wireCipher.crypt socket.outgoing (s.frames.take n).flatten).1 ++ part ∧
        part <+: (wireCipher.crypt (wireCipher.crypt socket.outgoing
          (s.frames.take n).flatten).2 (s.inFlight.map PendingWrite.frame).flatten).1) := by
  have hs : Serial socket.outgoing s :=
    runSteps_preserves (fun _ _ _ h hI => Serial.step hI h) hrun (serial_init socket)
  obtain ⟨st, hheld, hflight⟩ := hs.exists_drain
  refine ⟨?_, hs.queue_of_quiet, ?_⟩
  · rw [hflight]
    cases st <;> simp [WriteStage.inFlight]
  · intro hok
    obtain ⟨n, hn⟩ := hs.order hok
    obtain ⟨part, hwire, hpart⟩ := hn.wire
    refine ⟨n, part, ?_, hwire, hpart⟩
    have hentries := hn.entries_drop
    rw [hheld] at hentries
    rw [hflight]
    cases st with
    | sending entry rest =>
      obtain ⟨-, htake, -⟩ := entries_next hentries
      simpa [WriteStage.inFlight] using htake.symm
    | _ => simp [WriteStage.inFlight]

theorem wire_order_two :
    let socket : AsyncSocket := {}
    let es : List WriteStep := [.enqueue [1, 2], .pop 0, .start 0, .transmit 0 1, .enqueue [3],
      .transmit 0 1, .written 0, .pop 0, .start 0]
    ∃ s, runSteps step es { socket } = some s ∧ s.wire = [1, 2] ∧
      s.inFlight.length ≤ 1 ∧ (s.Quiet → s.queue = []) ∧
      (s.broken = false → ∃ n part,
        s.frames.take n ++ s.inFlight.map PendingWrite.frame =
          s.frames.take (n + s.inFlight.length) ∧
        s.wire = (wireCipher.crypt socket.outgoing (s.frames.take n).flatten).1 ++ part ∧
        part <+: (wireCipher.crypt (wireCipher.crypt socket.outgoing
          (s.frames.take n).flatten).2 (s.inFlight.map PendingWrite.frame).flatten).1) := by
  intro socket es
  have hrun : runSteps step es { socket } = some _ := rfl
  exact ⟨_, hrun, rfl, wire_order hrun⟩

end WriteQueue

end P2P
