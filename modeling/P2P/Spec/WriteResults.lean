import P2P.Spec.WriteQueue

/-!
# What a write reports

The drain cancels the waiter of a written frame; after a failed write it first sets the results of
all frames in the queue.
-/

namespace P2P

open AsyncSocket PendingWrite List WriteStage WriteQueue Option Function

namespace WriteStage

def finished : WriteStage → Bool
  | .returned | .thrown _ => true
  | _ => false

def working : WriteStage → Bool
  | .draining | .taken _ | .sending .. => true
  | _ => false

/-- What the fate of a frame, the result and the waiter of its call have to do with the call. -/
def Fits (fate : Fate) (result : Option ErrorCode) (cancelled : Bool) : WriteStage → Prop
  | .waiting =>
    if cancelled then fate = .written ∧ result = none ∨ fate = .lost ∧ result ≠ none
    else fate ≠ .written ∧ result = none
  | .draining | .taken _ | .sending .. => fate ≠ .lost
  | .failing _ | .notifying .. | .thrown _ => fate = .lost
  | .returned => fate = .written

def work : WriteStage → Nat
  | .waiting => 1
  | .draining => 3
  | .taken entry => entry.frame.length + 5
  | .sending _ rest => rest.length + 4
  | .failing _ => 2
  | .notifying _ remaining => remaining.length + 1
  | .returned | .thrown _ => 0

theorem active_of_working {st : WriteStage} (h : st.working = true) : st.active = true := by
  cases st <;> first | rfl | cases h

variable {st : WriteStage} {result : Option ErrorCode} {cancelled : Bool} {ec : ErrorCode}

theorem fits_working {fate : Fate} (h : st.working = true) :
    st.Fits fate result cancelled ↔ fate ≠ .lost := by
  cases st <;> first | rfl | cases h

theorem Fits.written (h : st.Fits .pending result cancelled) : st.Fits .written result true := by
  cases st <;> cases cancelled <;> simp_all [Fits]

theorem Fits.lost (h : st.Fits .pending result cancelled) (hw : st.working = false) :
    st.Fits .lost result cancelled := by
  cases st <;> cases cancelled <;> simp_all [Fits, working]

theorem Fits.told (h : st.Fits .lost result cancelled) : st.Fits .lost (some ec) true := by
  cases st <;> simp_all [Fits]

end WriteStage

def WriteStep.isCall : WriteStep → Bool
  | .enqueue _ => true
  | _ => false

namespace WriteQueue

variable {s s' : WriteQueue} {k : Option Rc4} {st st' : WriteStage} {i : Nat}

/-- A wait ends because the waiter was cancelled, and a write fails only while the drain writes its
    own frame. -/
def Orderly (s : WriteQueue) : WriteStep → Prop
  | .wake call => s.cancelled call = true
  | .writeFailed call _ => s.inFlight.map caller = [call]
  | _ => True

instance Orderly.decidable (s : WriteQueue) : (a : WriteStep) → Decidable (s.Orderly a) := by
  intro st
  unfold Orderly
  split <;> infer_instance

def owners (s : WriteQueue) : List Nat := (s.held ++ s.queue).map caller

structure Settled (s : WriteQueue) : Prop where
  fits : ∀ (i : Nat) (st : WriteStage), s.calls[i]? = some st →
    st.Fits (s.fate i) (s.result i) (s.cancelled i)
  fresh : ∀ i : Nat, s.calls.length ≤ i →
    s.fate i = .pending ∧ s.result i = none ∧ s.cancelled i = false
  nodup : s.owners.Nodup
  owners_iff : ∀ i : Nat, i ∈ s.owners ↔ i < s.calls.length ∧ s.fate i = .pending
  told : ∀ i : Nat, s.calls[i]? = some .waiting → s.cancelled i = false → s.fate i = .lost →
    ∃ (j : Nat) (ec : ErrorCode) (remaining : List PendingWrite),
      s.calls[j]? = some (.notifying ec remaining) ∧ i ∈ remaining.map caller
  lost : ∀ (j : Nat) (ec : ErrorCode) (remaining : List PendingWrite),
    s.calls[j]? = some (.notifying ec remaining) → ∀ entry ∈ remaining, s.fate entry.caller = .lost
  /-- After an error, a drain has not got past its own frame. -/
  own : s.broken = true → ∀ (i : Nat) (st : WriteStage), s.calls[i]? = some st →
    st.working = true → s.owners.head? = some i

theorem lt_of_getElem? (hi : s.calls[i]? = some st) : i < s.calls.length :=
  (List.getElem?_eq_some_iff.mp hi).1

theorem getElem?_goTo (hi : s.calls[i]? = some st) (j : Nat) :
    (s.goTo i st').calls[j]? = if j = i then some st' else s.calls[j]? := by
  by_cases hj : j = i
  · subst hj
    simp [goTo, lt_of_getElem? hi]
  · simp [goTo, hj, getElem?_set_ne (Ne.symm hj)]

variable {j : Nat} {st₁ : WriteStage}

section

variable (h : Serial k s) (hi : s.calls[i]? = some st) (ha : st.active = true) (hji : j ≠ i)

include h hi ha hji

theorem Serial.inactive_of_ne (hj : s.calls[j]? = some st₁) : st₁.active = false := by
  have hnone := ((h.active hi ha).2.2.2.2 .returned).1
  have hmem : st₁ ∈ (s.goTo i .returned).calls := by
    refine mem_of_getElem? (i := j) ?_
    rw [getElem?_goTo hi, if_neg hji, hj]
  simpa using (countP_eq_zero.mp hnone) st₁ hmem

theorem Serial.not_working_of_ne (hj : s.calls[j]? = some st₁) : st₁.working = false := by
  have hinactive := h.inactive_of_ne hi ha hji hj
  cases hw : st₁.working with
  | false => rfl
  | true =>
    rw [active_of_working hw] at hinactive
    cases hinactive

end

theorem Settled.of_goTo (st' : WriteStage) (h : Settled s) (hi : s.calls[i]? = some st)
    (hcalls : s'.calls = (s.goTo i st').calls)
    (hfits : ∀ j st₁, j ≠ i → s.calls[j]? = some st₁ →
      st₁.Fits (s'.fate j) (s'.result j) (s'.cancelled j))
    (hfits' : st'.Fits (s'.fate i) (s'.result i) (s'.cancelled i))
    (hfresh : ∀ j, s.calls.length ≤ j →
      s'.fate j = s.fate j ∧ s'.result j = s.result j ∧ s'.cancelled j = s.cancelled j)
    (hnodup : s'.owners.Nodup)
    (howners : ∀ j, j ∈ s'.owners ↔ j < s.calls.length ∧ s'.fate j = .pending)
    (hwaiting : st' ≠ .waiting)
    (htold : ∀ j, s.calls[j]? = some .waiting → s'.cancelled j = false → s'.fate j = .lost →
      (∃ ec remaining, st' = .notifying ec remaining ∧ j ∈ remaining.map caller) ∨
      s.cancelled j = false ∧ s.fate j = .lost ∧ ∀ ec remaining, st = .notifying ec remaining →
        j ∉ remaining.map caller)
    (hlost : ∀ j, s.fate j = .lost → s'.fate j = .lost)
    (hlost' : ∀ ec remaining, st' = .notifying ec remaining →
      ∀ entry ∈ remaining, s'.fate entry.caller = .lost)
    (hown : s'.broken = true → st'.working = true → s'.owners.head? = some i)
    (hother : s'.broken = true → ∀ j st₁, j ≠ i → s.calls[j]? = some st₁ → st₁.working = true →
      s'.owners.head? = some j) : Settled s' := by
  have hget : ∀ j, s'.calls[j]? = if j = i then some st' else s.calls[j]? := fun j => by
    rw [hcalls, getElem?_goTo hi]
  have hlen : s'.calls.length = s.calls.length := by rw [hcalls, length_goTo]
  refine ⟨?_, ?_, hnodup, ?_, ?_, ?_, ?_⟩
  · intro j st₁ hj
    rw [hget] at hj
    split at hj
    next heq =>
      rw [heq, ← some.inj hj]
      exact hfits'
    next hne => exact hfits j st₁ hne hj
  · intro j hj
    rw [hlen] at hj
    obtain ⟨hf, hr, hc⟩ := hfresh j hj
    rw [hf, hr, hc]
    exact h.fresh j hj
  · rw [hlen]
    exact howners
  · intro j hj hc hf
    rw [hget] at hj
    split at hj
    next => exact absurd (some.inj hj) hwaiting
    next =>
      obtain ⟨ec, remaining, hst', hmem⟩ | ⟨hc₀, hf₀, hst⟩ := htold j hj hc hf
      · exact ⟨i, ec, remaining, by rw [hget, if_pos rfl, hst'], hmem⟩
      · obtain ⟨l, ec, remaining, hl, hmem⟩ := h.told j hj hc₀ hf₀
        refine ⟨l, ec, remaining, ?_, hmem⟩
        rw [hget, if_neg, hl]
        rintro rfl
        exact hst ec remaining (some.inj (hi.symm.trans hl)) hmem
  · intro j ec remaining hj entry hmem
    rw [hget] at hj
    split at hj
    next => exact hlost' ec remaining (some.inj hj) entry hmem
    next => exact hlost _ (h.lost j ec remaining hj entry hmem)
  · intro hb j st₁ hj hw
    rw [hget] at hj
    split at hj
    next heq =>
      rw [heq]
      refine hown hb ?_
      rw [some.inj hj]
      exact hw
    next hne => exact hother hb j st₁ hne hj hw

theorem Settled.goTo (h : Settled s) (hi : s.calls[i]? = some st)
    (hcalls : s'.calls = (s.goTo i st').calls) (hfate : s'.fate = s.fate)
    (hresult : s'.result = s.result) (hcancelled : s'.cancelled = s.cancelled)
    (howners : s'.owners = s.owners) (hbroken : s'.broken = s.broken)
    (hfits : st'.Fits (s.fate i) (s.result i) (s.cancelled i))
    (hworking : st'.working = true → st.working = true)
    (hdone : ∀ ec remaining, st = .notifying ec remaining → remaining = [])
    (hnew : st' ≠ .waiting ∧ ∀ ec remaining, st' ≠ .notifying ec remaining) : Settled s' := by
  refine h.of_goTo st' hi hcalls ?_ ?_ ?_ ?_ ?_ hnew.1 ?_ ?_ ?_ ?_ ?_
  · rw [hfate, hresult, hcancelled]
    exact fun j st₁ _ hj => h.fits j st₁ hj
  · rw [hfate, hresult, hcancelled]
    exact hfits
  · exact fun j _ => ⟨by rw [hfate], by rw [hresult], by rw [hcancelled]⟩
  · rw [howners]
    exact h.nodup
  · rw [howners, hfate]
    exact h.owners_iff
  · rw [hfate, hcancelled]
    refine fun j _ hc hf => .inr ⟨hc, hf, fun ec remaining hst => ?_⟩
    rw [hdone ec remaining hst]
    simp
  · rw [hfate]
    exact fun j hf => hf
  · exact fun ec remaining hst' => absurd hst' (hnew.2 ec remaining)
  · rw [hbroken, howners]
    exact fun hb hw => h.own hb i st hi (hworking hw)
  · rw [hbroken, howners]
    exact fun hb j st₁ _ => h.own hb j st₁

theorem Serial.owners_of_idle (h : Serial k s) (hw : s.writing = false) : s.owners = [] := by
  have hnone : s.calls.countP WriteStage.active = 0 := by rw [h.drains, hw]; rfl
  have hheld : s.held = [] :=
    flatMap_eq_nil_of_countP held_of_not_active hnone
  rw [owners, hheld, h.idle hw]
  rfl

theorem Serial.owners_active (h : Serial k s) (hi : s.calls[i]? = some st)
    (ha : st.active = true) : s.owners = (st.held ++ s.queue).map caller := by
  rw [owners, (h.active hi ha).2.1]

theorem Serial.owners_goTo (st' : WriteStage) (h : Serial k s) (hi : s.calls[i]? = some st)
    (ha : st.active = true) (hcalls : s'.calls = (s.goTo i st').calls) :
    s'.owners = (st'.held ++ s'.queue).map caller := by
  have hheld : s'.held = st'.held := by
    rw [held, hcalls]
    exact ((h.active hi ha).2.2.2.2 st').2.1
  rw [owners, hheld]

theorem Settled.owners_tail {c : Nat} {l : List Nat} (h : Settled s) (howners : s.owners = c :: l) :
    l.Nodup ∧ ∀ j, j ∈ l ↔ j < s.calls.length ∧ j ≠ c ∧ s.fate j = .pending := by
  have hnodup := h.nodup
  rw [howners, nodup_cons] at hnodup
  refine ⟨hnodup.2, fun j => ?_⟩
  have hiff := h.owners_iff j
  rw [howners, mem_cons] at hiff
  by_cases hj : j = c
  · subst hj
    simp [hnodup.1]
  · simpa [hj] using hiff

theorem getElem?_enqueue {frame : Bytes} (hi : (s.enqueue frame).calls[i]? = some st) :
    s.calls[i]? = some st ∨
      i = s.calls.length ∧ st = if s.writing then .waiting else .draining := by
  rcases lt_trichotomy i s.calls.length with hlt | heq | hgt
  · exact .inl (by rwa [enqueue, getElem?_append_left hlt] at hi)
  · refine .inr ⟨heq, ?_⟩
    rw [enqueue, heq, getElem?_concat_length] at hi
    exact (some.inj hi).symm
  · have hlt := lt_of_getElem? hi
    simp only [enqueue, length_append, length_singleton] at hlt
    omega

theorem Settled.enqueue (hs : Serial k s) (h : Settled s) (frame : Bytes) :
    Settled (s.enqueue frame) := by
  have howners : (s.enqueue frame).owners = s.owners ++ [s.calls.length] := by
    rw [owners, enqueue_held]
    change (s.held ++ (s.queue ++ [_])).map _ = _
    simp [owners]
  have hlen : (s.enqueue frame).calls.length = s.calls.length + 1 := by
    simp [WriteQueue.enqueue]
  obtain ⟨hfate, hresult, hcancelled⟩ := h.fresh s.calls.length le_rfl
  refine ⟨?_, ?_, ?_, ?_, ?_, ?_, ?_⟩
  · intro j st hj
    obtain hj | ⟨rfl, rfl⟩ := getElem?_enqueue hj
    · exact h.fits j st hj
    · change Fits (s.fate _) (s.result _) (s.cancelled _) _
      rw [hfate, hresult, hcancelled]
      cases s.writing <;> simp [Fits]
  · intro j hj
    exact h.fresh j (by omega)
  · rw [howners]
    refine nodup_append.mpr ⟨h.nodup, by simp, ?_⟩
    intro a ha b hb
    have hlt := ((h.owners_iff a).mp ha).1
    rw [mem_singleton] at hb
    omega
  · intro j
    rw [howners, hlen, mem_append, mem_singleton, h.owners_iff]
    change _ ↔ _ ∧ s.fate j = .pending
    constructor
    · rintro (⟨hlt, hp⟩ | rfl)
      · exact ⟨by omega, hp⟩
      · exact ⟨by omega, hfate⟩
    · rintro ⟨hlt, hp⟩
      by_cases heq : j = s.calls.length
      · exact .inr heq
      · exact .inl ⟨by omega, hp⟩
  · intro j hj hc hf
    obtain hj | ⟨rfl, -⟩ := getElem?_enqueue hj
    · obtain ⟨l, ec, remaining, hl, hmem⟩ := h.told j hj hc hf
      refine ⟨l, ec, remaining, ?_, hmem⟩
      rw [WriteQueue.enqueue, getElem?_append_left (lt_of_getElem? hl), hl]
    · exact absurd (hfate.symm.trans hf) (by simp)
  · intro j ec remaining hj
    obtain hj | ⟨-, heq⟩ := getElem?_enqueue hj
    · exact h.lost j ec remaining hj
    · cases hw : s.writing <;> simp [hw] at heq
  · intro hb j st hj hworking
    rw [howners]
    obtain hj | ⟨rfl, rfl⟩ := getElem?_enqueue hj
    · rw [head?_append, h.own hb j st hj hworking, some_or]
    · -- a new drain starts with nothing queued before its own frame
      cases hw : s.writing with
      | true => simp [hw, working] at hworking
      | false => simp [hs.owners_of_idle hw]

variable {entry : PendingWrite}

theorem Settled.written (hs : Serial k s) (h : Settled s)
    (hi : s.calls[i]? = some (.sending entry [])) (hok : s.broken = false) :
    Settled (s.written i entry) := by
  have howners : s.owners = entry.caller :: s.queue.map caller :=
    hs.owners_active hi rfl
  have howners' : (s.written i entry).owners = s.queue.map caller :=
    hs.owners_goTo .draining hi rfl rfl
  obtain ⟨hnodup, htail⟩ := h.owners_tail howners
  obtain ⟨hlt, hpending⟩ := (h.owners_iff entry.caller).mp (by simp [howners])
  have hfate : ∀ j, (s.written i entry).fate j =
      if j = entry.caller then .written else s.fate j := fun j => update_apply ..
  have hcancelled : ∀ j, (s.written i entry).cancelled j =
      if j = entry.caller then true else s.cancelled j := fun j => update_apply ..
  refine h.of_goTo .draining hi rfl ?_ ?_ ?_ ?_ ?_ (by simp) ?_ ?_ (by simp) ?_ ?_
  · intro j st hji hj
    have hfits := h.fits j st hj
    rw [hfate, hcancelled]
    by_cases hjc : j = entry.caller
    · rw [hjc, hpending, ← hjc] at hfits
      rw [if_pos hjc, if_pos hjc]
      exact hfits.written
    · rw [if_neg hjc, if_neg hjc]
      exact hfits
  · have hown : s.fate i ≠ .lost := h.fits i _ hi
    simp only [Fits, hfate]
    split
    · simp
    · exact hown
  · intro j hj
    have hne : j ≠ entry.caller := by omega
    exact ⟨(hfate j).trans (if_neg hne), rfl, (hcancelled j).trans (if_neg hne)⟩
  · rw [howners']
    exact hnodup
  · intro j
    rw [howners', htail, hfate]
    by_cases hj : j = entry.caller <;> simp [hj]
  · intro j _ hc hf
    rw [hfate] at hf
    rw [hcancelled] at hc
    split at hf
    next => cases hf
    next hjc =>
      rw [if_neg hjc] at hc
      exact .inr ⟨hc, hf, by simp⟩
  · intro j hf
    rw [hfate, if_neg, hf]
    rintro rfl
    rw [hpending] at hf
    cases hf
  · exact fun hb => absurd (hok.symm.trans hb) (by simp)
  · exact fun hb => absurd (hok.symm.trans hb) (by simp)

variable {ec : ErrorCode}

theorem Settled.writeFailed {rest : Bytes} (hs : Serial k s) (h : Settled s)
    (hi : s.calls[i]? = some (.sending entry rest)) (hown : entry.caller = i) :
    Settled (s.writeFailed i entry ec) := by
  have howners : s.owners = i :: s.queue.map caller := by
    rw [← hown]
    exact hs.owners_active hi rfl
  have howners' : (s.writeFailed i entry ec).owners = s.queue.map caller :=
    hs.owners_goTo (.failing ec) hi rfl rfl
  obtain ⟨hnodup, htail⟩ := h.owners_tail howners
  have hfate : ∀ j, (s.writeFailed i entry ec).fate j = if j = i then .lost else s.fate j := by
    intro j
    change update s.fate entry.caller .lost j = _
    rw [hown, update_apply]
  refine h.of_goTo (.failing ec) hi rfl ?_ ?_ ?_ ?_ ?_ (by simp) ?_ ?_ (by simp) nofun ?_
  · intro j st hji hj
    rw [hfate, if_neg hji]
    exact h.fits j st hj
  · exact (hfate i).trans (if_pos rfl)
  · intro j hj
    have hne : j ≠ i := by
      have hlt := lt_of_getElem? hi
      omega
    exact ⟨(hfate j).trans (if_neg hne), rfl, rfl⟩
  · rw [howners']
    exact hnodup
  · intro j
    rw [howners', htail, hfate]
    by_cases hj : j = i <;> simp [hj]
  · intro j hj hc hf
    refine .inr ⟨hc, ?_, by simp⟩
    rw [hfate, if_neg] at hf
    · exact hf
    · rintro rfl
      rw [hi] at hj
      cases hj
  · intro j hf
    rw [hfate, hf]
    split <;> rfl
  · -- the only drain has failed
    intro _ j st hji hj hw
    rw [hs.not_working_of_ne hi rfl hji hj] at hw
    cases hw

theorem Settled.failAll (hs : Serial k s) (h : Settled s) (hi : s.calls[i]? = some (.failing ec)) :
    Settled (s.failAll i ec) := by
  have howners : s.owners = s.queue.map caller := hs.owners_active hi rfl
  have howners' : (s.failAll i ec).owners = [] :=
    hs.owners_goTo (.notifying ec s.queue) hi rfl rfl
  have hfate : ∀ j, (s.failAll i ec).fate j = if j ∈ s.owners then .lost else s.fate j := by
    intro j
    rw [howners]
    rfl
  have hi' : s.fate i = .lost := h.fits i _ hi
  refine h.of_goTo (.notifying ec s.queue) hi rfl ?_ ?_ ?_ ?_ ?_ (by simp) ?_ ?_ ?_ nofun ?_
  · intro j st hji hj
    have hfits := h.fits j st hj
    rw [hfate]
    split
    next hmem =>
      rw [((h.owners_iff j).mp hmem).2] at hfits
      exact hfits.lost (hs.not_working_of_ne hi rfl hji hj)
    next => exact hfits
  · simp only [Fits, hfate, hi', ite_self]
  · intro j hj
    refine ⟨(hfate j).trans (if_neg fun hmem => ?_), rfl, rfl⟩
    have hlt := ((h.owners_iff j).mp hmem).1
    omega
  · rw [howners']
    exact nodup_nil
  · intro j
    rw [howners', hfate]
    have hiff := h.owners_iff j
    by_cases hmem : j ∈ s.owners
    · simp [hmem]
    · rw [if_neg hmem]
      simpa [hmem] using hiff
  · intro j _ hc hf
    rw [hfate] at hf
    split at hf
    next hmem => exact .inl ⟨ec, s.queue, rfl, howners ▸ hmem⟩
    next => exact .inr ⟨hc, hf, by simp⟩
  · intro j hf
    rw [hfate, hf, ite_self]
  · rintro ec' remaining heq entry hmem
    cases heq
    rw [hfate, if_pos]
    rw [howners]
    exact mem_map_of_mem hmem
  · intro _ j st hji hj hw
    rw [hs.not_working_of_ne hi rfl hji hj] at hw
    cases hw

variable {remaining : List PendingWrite}

theorem Settled.notify (h : Settled s)
    (hi : s.calls[i]? = some (.notifying ec (entry :: remaining))) :
    Settled (s.notify i ec entry remaining) := by
  have hentry : s.fate entry.caller = .lost :=
    h.lost i ec _ hi entry (mem_cons_self ..)
  have howners' : (s.notify i ec entry remaining).owners = s.owners := by
    change ((s.goTo i (.notifying ec remaining)).held ++ s.queue).map _ = _
    rw [(goTo_inactive hi rfl rfl).2.1]
    rfl
  have hresult : ∀ j, (s.notify i ec entry remaining).result j =
      if j = entry.caller then some ec else s.result j := fun j => update_apply ..
  have hcancelled : ∀ j, (s.notify i ec entry remaining).cancelled j =
      if j = entry.caller then true else s.cancelled j := fun j => update_apply ..
  refine h.of_goTo (.notifying ec remaining) hi rfl ?_ ?_ ?_ ?_ ?_ (by simp) ?_ ?_ ?_ nofun ?_
  · intro j st _ hj
    have hfits := h.fits j st hj
    rw [hresult, hcancelled]
    change st.Fits (s.fate j) _ _
    by_cases hjc : j = entry.caller
    · rw [if_pos hjc, if_pos hjc, hjc, hentry]
      rw [hjc, hentry] at hfits
      exact hfits.told
    · rw [if_neg hjc, if_neg hjc]
      exact hfits
  · exact h.fits i _ hi
  · intro j hj
    have hne : j ≠ entry.caller := by
      rintro rfl
      rw [(h.fresh _ hj).1] at hentry
      cases hentry
    exact ⟨rfl, (hresult j).trans (if_neg hne), (hcancelled j).trans (if_neg hne)⟩
  · rw [howners']
    exact h.nodup
  · rw [howners']
    exact h.owners_iff
  · intro j _ hc hf
    rw [hcancelled] at hc
    split at hc
    next => cases hc
    next hjc =>
      -- among those that are still to be told if it was among them before
      by_cases hmem : j ∈ remaining.map caller
      · exact .inl ⟨ec, remaining, rfl, hmem⟩
      · refine .inr ⟨hc, hf, fun ec' remaining' heq => ?_⟩
        cases heq
        rw [List.map_cons, mem_cons, not_or]
        exact ⟨hjc, hmem⟩
  · exact fun j hf => hf
  · rintro ec' remaining' heq e he
    cases heq
    exact h.lost i ec _ hi e (mem_cons_of_mem _ he)
  · rw [howners']
    exact fun hb j st _ => h.own hb j st

theorem Settled.goTo_working (hs : Serial k s) (h : Settled s) (hi : s.calls[i]? = some st)
    (hw : st.working = true) (hw' : st'.working = true)
    (hcalls : s'.calls = (s.goTo i st').calls) (hfate : s'.fate = s.fate)
    (hresult : s'.result = s.result) (hcancelled : s'.cancelled = s.cancelled)
    (hbroken : s'.broken = s.broken) (hqueue : st'.held ++ s'.queue = st.held ++ s.queue) :
    Settled s' := by
  have ha := active_of_working hw
  refine h.goTo hi hcalls hfate hresult hcancelled ?_ hbroken ?_ (fun _ => hw) ?_ ?_
  · rw [hs.owners_goTo st' hi ha hcalls, hqueue, hs.owners_active hi ha]
  · rw [fits_working hw']
    exact (fits_working hw).mp (h.fits i st hi)
  · rintro ec remaining rfl
    cases hw
  · constructor
    · rintro rfl
      cases hw'
    · rintro ec remaining rfl
      cases hw'

theorem Settled.popLast (hs : Serial k s) (h : Settled s) (hi : s.calls[i]? = some .draining)
    (hq : s.queue = []) : Settled { s.goTo i .returned with writing := false } := by
  have howners : s.owners = [] := by rw [hs.owners_active hi rfl, hq]; rfl
  have howners' : owners { s.goTo i .returned with writing := false } =
      s.queue.map caller := hs.owners_goTo .returned hi rfl rfl
  rw [hq] at howners'
  refine h.goTo hi rfl rfl rfl rfl (howners'.trans howners.symm) rfl ?_ (fun _ => rfl)
    (by simp) (by simp)
  have hlost : s.fate i ≠ .lost := h.fits i _ hi
  have hpending : s.fate i ≠ .pending := by
    intro hp
    have hmem := (h.owners_iff i).mpr ⟨lt_of_getElem? hi, hp⟩
    rw [howners] at hmem
    simp at hmem
  change s.fate i = .written
  cases hf : s.fate i with
  | pending => exact absurd hf hpending
  | written => rfl
  | lost => exact absurd hf hlost

theorem Settled.wake (h : Settled s) (hi : s.calls[i]? = some .waiting)
    (hc : s.cancelled i = true) : Settled (s.goTo i (s.afterWait i)) := by
  have hfits := h.fits i _ hi
  rw [hc] at hfits
  have hafter : (s.afterWait i).Fits (s.fate i) (s.result i) (s.cancelled i) ∧
      (s.afterWait i).finished = true := by
    unfold afterWait
    obtain ⟨hf, hr⟩ | ⟨hf, hr⟩ := hfits
    · simp [hf, hr, Fits, finished]
    · obtain ⟨ec, hec⟩ := ne_none_iff_exists'.mp hr
      simp [hf, hec, Fits, finished]
  refine h.goTo hi rfl rfl rfl rfl ?_ rfl hafter.1 ?_ (by simp) ?_
  · rw [owners, (goTo_inactive hi rfl (afterWait_quiet s i).1).2.1]
    rfl
  · intro hw
    have hna := (afterWait_quiet s i).1
    rw [active_of_working hw] at hna
    cases hna
  · have hfin := hafter.2
    constructor
    · intro heq
      rw [heq] at hfin
      cases hfin
    · intro ec remaining heq
      rw [heq] at hfin
      cases hfin

variable {a : WriteStep}

theorem Settled.step (hs : Serial k s) (h : Settled s) (ha : s.Orderly a)
    (hstep : s.step a = some s') : Settled s' := by
  cases step_moves hstep with
  | enqueue frame => exact h.enqueue hs frame
  | popLast hi hq => exact h.popLast hs hi hq
  | popEntry hi hq => exact h.goTo_working hs hi rfl rfl rfl rfl rfl rfl rfl hq.symm
  | start hi | transmit hi => exact h.goTo_working hs hi rfl rfl rfl rfl rfl rfl rfl rfl
  | written hi hok => exact h.written hs hi hok
  | writeFailed hi =>
    refine h.writeFailed hs hi ?_
    have hflight := (hs.active hi rfl).2.2.1
    simpa [Orderly, hflight, WriteStage.inFlight] using ha
  | failAll hi => exact h.failAll hs hi
  | notify hi => exact h.notify hi
  | rethrow hi =>
    have hlost : s.fate _ = .lost := h.fits _ _ hi
    refine h.goTo hi rfl rfl rfl rfl ?_ rfl hlost (by simp [working]) ?_ (by simp)
    · rw [owners, (goTo_inactive hi rfl rfl).2.1]
      rfl
    · intro ec remaining heq
      cases heq
      rfl
  | wake hi => exact h.wake hi ha

def work (s : WriteQueue) : Nat :=
  (s.calls.map WriteStage.work).sum + (s.queue.map fun e => e.frame.length + 3).sum

section

variable (st' : WriteStage) (hi : s.calls[i]? = some st) (hcalls : s'.calls = (s.goTo i st').calls)

include hi hcalls

theorem work_goTo :
    s'.work + st.work + (s.queue.map fun e => e.frame.length + 3).sum =
      s.work + st'.work + (s'.queue.map fun e => e.frame.length + 3).sum := by
  have hset := sum_map_set_add hi st' WriteStage.work
  simp only [work, hcalls, goTo]
  omega

theorem work_lt_of_goTo (hqueue : s'.queue = s.queue) (hlt : st'.work < st.work) :
    s'.work < s.work := by
  have hw := work_goTo st' hi hcalls
  rw [hqueue] at hw
  omega

end

theorem work_lt (ha : a.isCall = false) (hstep : s.step a = some s') : s'.work < s.work := by
  cases step_moves hstep with
  | enqueue frame => cases ha
  | popLast hi hq => exact work_lt_of_goTo .returned hi rfl rfl (by decide)
  | @popEntry i entry queue hi hq =>
    have hw := work_goTo (.taken entry) hi
      (rfl : ({ s.goTo i (.taken entry) with queue } : WriteQueue).calls = _)
    simp only [WriteStage.work, hq, map_cons, sum_cons] at hw ⊢
    omega
  | @start i entry hi =>
    refine work_lt_of_goTo (.sending entry _) hi rfl rfl ?_
    have hlen : (s.socket.encryptOutgoing entry.frame).1.length = entry.frame.length := by
      rw [(encryptOutgoing_spec s.socket entry.frame).1, StreamCipher.length_crypt]
    simp only [WriteStage.work, hlen]
    omega
  | @transmit i entry rest count hi hok h0 hle =>
    refine work_lt_of_goTo (.sending entry (rest.drop count)) hi rfl rfl ?_
    simp only [WriteStage.work, length_drop]
    omega
  | written hi hok => exact work_lt_of_goTo .draining hi rfl rfl (by simp [WriteStage.work])
  | @writeFailed i entry rest ec hi =>
    refine work_lt_of_goTo (.failing ec) hi rfl rfl ?_
    simp only [WriteStage.work]
    omega
  | @failAll i ec hi =>
    have hw := work_goTo (.notifying ec s.queue) hi
      (rfl : (s.failAll i ec).calls = (s.goTo i (.notifying ec s.queue)).calls)
    have hle : s.queue.length ≤ (s.queue.map fun e => e.frame.length + 3).sum := by
      generalize s.queue = queue
      induction queue with
      | nil => simp
      | cons e queue ih =>
        simp only [length_cons, List.map_cons, List.sum_cons]
        omega
    have hnil : (s.failAll i ec).queue = [] := rfl
    simp only [WriteStage.work, hnil, map_nil, sum_nil] at hw
    omega
  | @notify i ec entry remaining hi =>
    exact work_lt_of_goTo (.notifying ec remaining) hi rfl rfl (by simp [WriteStage.work])
  | @rethrow i ec hi =>
    exact work_lt_of_goTo (.thrown ec) hi rfl rfl (by simp [WriteStage.work])
  | @wake i hi =>
    refine work_lt_of_goTo (s.afterWait i) hi rfl rfl ?_
    unfold afterWait
    split <;> simp [WriteStage.work]

theorem Settled.drain_progress (hs : Serial k s) (h : Settled s) (hi : s.calls[i]? = some st)
    (ha : st.active = true) : ∃ a, a.isCall = false ∧ s.Orderly a ∧ (s.step a).isSome = true := by
  cases st with
  | draining => exact ⟨.pop i, rfl, trivial, by simp [WriteQueue.step, hi]⟩
  | taken entry => exact ⟨.start i, rfl, trivial, by simp [WriteQueue.step, hi]⟩
  | sending entry rest =>
    cases hb : s.broken with
    | false =>
      cases rest with
      | nil => exact ⟨.written i, rfl, trivial, by simp [WriteQueue.step, hi, hb]⟩
      | cons b rest => exact ⟨.transmit i 1, rfl, trivial, by simp [WriteQueue.step, hi, hb]⟩
    | true =>
      -- the drain has not got past its own frame
      refine ⟨.writeFailed i 0, rfl, ?_, by simp [WriteQueue.step, hi]⟩
      have hown := h.own hb i _ hi rfl
      rw [hs.owners_active hi rfl] at hown
      have hflight := (hs.active hi rfl).2.2.1
      simpa [Orderly, hflight, WriteStage.inFlight, WriteStage.held] using hown
  | failing ec => exact ⟨.failAll i, rfl, trivial, by simp [WriteQueue.step, hi]⟩
  | _ => cases ha

theorem notify_progress (hi : s.calls[i]? = some (.notifying ec remaining)) :
    ∃ a, a.isCall = false ∧ s.Orderly a ∧ (s.step a).isSome = true := by
  refine ⟨.notify i, rfl, trivial, ?_⟩
  cases remaining <;> simp [WriteQueue.step, hi]

theorem Settled.progress (hs : Serial k s) (h : Settled s) (hi : s.calls[i]? = some st)
    (hst : st.finished = false) :
    ∃ a, a.isCall = false ∧ s.Orderly a ∧ (s.step a).isSome = true := by
  by_cases ha : st.active = true
  · exact h.drain_progress hs hi ha
  cases st with
  | waiting =>
    cases hc : s.cancelled i with
    | true => exact ⟨.wake i, rfl, hc, by simp [WriteQueue.step, hi]⟩
    | false =>
      have hfits := h.fits i _ hi
      rw [hc] at hfits
      cases hf : s.fate i with
      | written => exact absurd hf hfits.1
      | pending =>
        -- its frame is queued, so somebody is the drain
        have hmem := (h.owners_iff i).mpr ⟨lt_of_getElem? hi, hf⟩
        have hw : s.writing = true := by
          cases hw : s.writing with
          | true => rfl
          | false =>
            rw [hs.owners_of_idle hw] at hmem
            simp at hmem
        have hpos : 0 < s.calls.countP active := by
          rw [hs.drains, hw]
          decide
        obtain ⟨st₁, hmem₁, ha₁⟩ := countP_pos_iff.mp hpos
        obtain ⟨j, hj⟩ := mem_iff_getElem?.mp hmem₁
        exact h.drain_progress hs hj ha₁
      | lost =>
        obtain ⟨j, ec, remaining, hj, -⟩ := h.told i hi hc hf
        exact notify_progress hj
  | notifying ec remaining => exact notify_progress hi
  | returned => cases hst
  | thrown ec => cases hst
  | _ => exact absurd rfl ha

theorem settled_init (socket : AsyncSocket) : Settled { socket } := by
  refine ⟨by simp, fun _ _ => ⟨rfl, rfl, rfl⟩, nodup_nil, by simp [owners, held], by simp,
    by simp, by simp⟩

/-- **Every call reports the fate of its own frame**, as long as no wait ends before its waiter is
    cancelled and only writes of the drain's own frame fail. -/
theorem enqueueWrite_reports {socket : AsyncSocket} {es : List WriteStep}
    (hrun : runSteps step es { socket } = some s) (horder : StepsMeet step Orderly es { socket }) :
    (∀ i, s.calls[i]? = some .returned → s.fate i = .written) ∧
      (∀ i ec, s.calls[i]? = some (.thrown ec) → s.fate i = .lost) ∧
      ((∃ st ∈ s.calls, st.finished = false) →
        ∃ a, a.isCall = false ∧ s.Orderly a ∧ (s.step a).isSome = true) ∧
      ∀ es' s', (∀ a ∈ es', a.isCall = false) → runSteps step es' s = some s' →
        es'.length ≤ s.work := by
  obtain ⟨hs, h⟩ : Serial socket.outgoing s ∧ Settled s :=
    runSteps_invariant (I := fun s => Serial socket.outgoing s ∧ Settled s)
      (fun s a s' ha hstep h => ⟨h.1.step hstep, h.2.step h.1 ha hstep⟩) horder hrun
      ⟨serial_init socket, settled_init socket⟩
  refine ⟨fun i hi => h.fits i _ hi, fun i ec hi => h.fits i _ hi, ?_, ?_⟩
  · rintro ⟨st, hmem, hst⟩
    obtain ⟨i, hi⟩ := mem_iff_getElem?.mp hmem
    exact h.progress hs hi hst
  · intro es' s' hes' hrun'
    have hle := runSteps_length_le (fun _ _ _ => work_lt) (StepsMeet.of_forall hes' s) hrun'
    omega

theorem enqueueWrite_reports_failed :
    let socket : AsyncSocket := {}
    let es : List WriteStep := [.enqueue [1], .enqueue [2], .pop 0, .start 0, .writeFailed 0 32,
      .failAll 0, .notify 0, .wake 1, .notify 0]
    ∃ s, runSteps step es { socket } = some s ∧ s.calls = [.thrown 32, .thrown 32] ∧
      s.fate 0 = .lost ∧ s.fate 1 = .lost := by
  intro socket es
  have hrun : runSteps step es { socket } = some _ := rfl
  have h := enqueueWrite_reports hrun (by decide)
  exact ⟨_, hrun, rfl, h.2.1 0 32 rfl, h.2.1 1 32 rfl⟩

/-- The frame of the second call is still queued when that call returns. -/
theorem enqueueWrite_reports_wrong :
    (∃ s, runSteps step [.enqueue [1], .enqueue [2], .wake 1] { socket := {} } = some s ∧
      s.calls[1]? = some .returned ∧ s.fate 1 = .pending) ∧
    ∃ s, runSteps step [.enqueue [1], .enqueue [2], .pop 0, .start 0, .transmit 0 1, .written 0,
        .pop 0, .start 0, .writeFailed 0 32, .failAll 0, .notify 0, .wake 1] { socket := {} } =
        some s ∧
      s.calls = [.thrown 32, .returned] ∧ s.fate 0 = .written ∧ s.fate 1 = .lost :=
  ⟨⟨_, rfl, rfl, rfl⟩, _, rfl, rfl, rfl, rfl⟩

end WriteQueue

end P2P
