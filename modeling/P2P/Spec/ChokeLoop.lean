import Mathlib.Data.List.Nodup
import P2P.Native.ChokeLoop
import P2P.Spec.ConnectionLimits

/-!
# What a pass of the choke loop does

A pass changes only who is choked, and leaves unchoked those whose peers are not interested, which
it does not look at, and the twelve that it has chosen.
-/

namespace P2P

open List

namespace ChokeLoop

variable {s s' s'' : ChokeLoop} {conns sorted toUnchoke : List Conn} {c d : Conn} {b : Bool}

/-! ## What no part of a pass changes -/

/-- Traffic counters apart, the manager stays, and so does what the peers have told and sent us. -/
structure Keeps (s s' : ChokeLoop) : Prop where
  registry : ∃ traffic, s'.registry =
    { s.registry with manager := { s.registry.manager with traffic } }
  interested : ∀ object, (s'.flags object).peerIsInterested = (s.flags object).peerIsInterested
  lastData : ∀ object, (s'.flags object).lastDataReceived = (s.flags object).lastDataReceived

namespace Keeps

theorem refl (s : ChokeLoop) : Keeps s s := ⟨⟨_, rfl⟩, fun _ => rfl, fun _ => rfl⟩

theorem trans (h : Keeps s s') (h' : Keeps s' s'') : Keeps s s'' := by
  obtain ⟨traffic, hreg⟩ := h.registry
  obtain ⟨traffic', hreg'⟩ := h'.registry
  refine ⟨⟨traffic', ?_⟩, fun object => (h'.interested object).trans (h.interested object),
    fun object => (h'.lastData object).trans (h.lastData object)⟩
  rw [hreg', hreg]

theorem setChoking (s : ChokeLoop) (c : Conn) (b : Bool) : Keeps s (s.setChoking c b) := by
  refine ⟨⟨_, rfl⟩, fun object => ?_, fun object => ?_⟩
  all_goals
    simp only [ChokeLoop.setChoking, setFlags, Function.update_apply]
    split
    · subst_vars
      rfl
    · rfl

theorem allPeers (h : Keeps s s') : s'.allPeers = s.allPeers := by
  obtain ⟨traffic, hreg⟩ := h.registry
  rw [ChokeLoop.allPeers, hreg, ChokeLoop.allPeers]

theorem peerIsInterested (h : Keeps s s') (c : Conn) :
    s'.peerIsInterested c = s.peerIsInterested c := h.interested c.object

theorem snubbing (h : Keeps s s') (c : Conn) : s'.snubbing c = s.snubbing c := by
  obtain ⟨traffic, hreg⟩ := h.registry
  rw [ChokeLoop.snubbing, h.lastData, hreg, ChokeLoop.snubbing]

end Keeps

section

variable (s : ChokeLoop)

theorem amChoking_setChoking (c d : Conn) (b : Bool) :
    (s.setChoking c b).amChoking d = if d.object = c.object then b else s.amChoking d := by
  simp only [amChoking, setChoking, setFlags, Function.update_apply]
  split <;> rfl

/-! ## The loops -/

theorem collect_keeps (conns : List Conn) : Keeps s (collect s conns).1 := by
  induction conns generalizing s with
  | nil => exact .refl s
  | cons c conns ih =>
    unfold collect
    split
    · exact ih s
    · split
      · exact (Keeps.setChoking s c true).trans (ih _)
      · exact ih s

theorem collect_frame (h : ∀ c ∈ conns, d.object ≠ c.object) :
    (collect s conns).1.amChoking d = s.amChoking d := by
  induction conns generalizing s with
  | nil => rfl
  | cons c conns ih =>
    rw [forall_mem_cons] at h
    unfold collect
    split
    · exact ih s h.2
    · split
      · rw [ih _ h.2, amChoking_setChoking, if_neg h.1]
      · exact ih s h.2

theorem collect_sublist (conns : List Conn) : (collect s conns).2.Sublist conns := by
  induction conns generalizing s with
  | nil => exact .slnil
  | cons c conns ih =>
    unfold collect
    split
    · exact (ih s).cons c
    · split
      · exact (ih _).cons c
      · exact (ih s).cons_cons c

theorem collect_spec (hnodup : (conns.map Conn.object).Nodup) (hc : c ∈ conns) :
    ((collect s conns).1.amChoking c = (s.amChoking c || s.peerIsInterested c && s.snubbing c)) ∧
    (c ∈ (collect s conns).2 ↔
      s.peerIsInterested c = true ∧ (s.amChoking c = true ∨ s.snubbing c = false)) := by
  induction conns generalizing s with
  | nil => simp at hc
  | cons d conns ih =>
    rw [map_cons, nodup_cons] at hnodup
    obtain ⟨hd, hnodup⟩ := hnodup
    have hobj : ∀ e ∈ conns, d.object ≠ e.object := by
      intro e he heq
      exact hd (heq ▸ mem_map_of_mem he)
    rcases mem_cons.mp hc with rfl | hc
    · -- the connection itself: the rest of the loop does not come back to it
      have hout : ∀ s, c ∉ (collect s conns).2 := by
        intro s hmem
        exact hobj c ((collect_sublist s conns).subset hmem) rfl
      unfold collect
      split
      next hint =>
        rw [collect_frame s hobj]
        simp_all
      next hint =>
        split
        next hsnub =>
          rw [collect_frame _ hobj, amChoking_setChoking, if_pos rfl]
          simp_all
        next hsnub =>
          simp only [collect_frame s hobj]
          cases hch : s.amChoking c <;> simp_all
    · have hne : c.object ≠ d.object := (hobj c hc).symm
      have hcd : c ≠ d := by
        rintro rfl
        exact hne rfl
      unfold collect
      split
      · exact ih s hnodup hc
      · split
        · have hk := Keeps.setChoking s d true
          have h := ih (s.setChoking d true) hnodup hc
          rwa [amChoking_setChoking, if_neg hne, hk.peerIsInterested, hk.snubbing] at h
        · simpa [hcd] using ih s hnodup hc

end

section

variable (toUnchoke : List Conn) (s : ChokeLoop)

theorem applySlots_keeps (conns : List Conn) : Keeps s (applySlots toUnchoke s conns) := by
  induction conns generalizing s with
  | nil => exact .refl s
  | cons c conns ih =>
    simp only [applySlots]
    split
    · exact (Keeps.setChoking s c false).trans (ih _)
    · split
      · exact (Keeps.setChoking s c true).trans (ih _)
      · exact ih s

theorem applySlots_frame (h : ∀ c ∈ conns, d.object ≠ c.object) :
    (applySlots toUnchoke s conns).amChoking d = s.amChoking d := by
  induction conns generalizing s with
  | nil => rfl
  | cons c conns ih =>
    rw [forall_mem_cons] at h
    simp only [applySlots]
    split
    · rw [ih _ h.2, amChoking_setChoking, if_neg h.1]
    · split
      · rw [ih _ h.2, amChoking_setChoking, if_neg h.1]
      · exact ih s h.2

theorem applySlots_spec (hnodup : (conns.map Conn.object).Nodup) (hc : c ∈ conns) :
    (applySlots toUnchoke s conns).amChoking c = !hasPeer toUnchoke c := by
  induction conns generalizing s with
  | nil => simp at hc
  | cons d conns ih =>
    rw [map_cons, nodup_cons] at hnodup
    obtain ⟨hd, hnodup⟩ := hnodup
    rcases mem_cons.mp hc with rfl | hc
    · have hobj : ∀ e ∈ conns, c.object ≠ e.object := by
        intro e he heq
        exact hd (heq ▸ mem_map_of_mem he)
      simp only [applySlots]
      split
      next h =>
        rw [applySlots_frame _ _ hobj, amChoking_setChoking, if_pos rfl]
        simp_all
      next h =>
        split
        next h' =>
          rw [applySlots_frame _ _ hobj, amChoking_setChoking, if_pos rfl]
          simp_all
        next h' =>
          rw [applySlots_frame _ _ hobj]
          cases hch : s.amChoking c <;> simp_all
    · simp only [applySlots]
      split
      · exact ih _ hnodup hc
      · split
        · exact ih _ hnodup hc
        · exact ih s hnodup hc

end

/-! ## The slots -/

theorem length_regular_le (s : ChokeLoop) (n : Nat) (conns : List Conn) :
    (s.regular n conns).length ≤ n := by
  induction conns generalizing n with
  | nil => cases n <;> simp [regular]
  | cons c conns ih =>
    cases n with
    | zero => simp [regular]
    | succ n =>
      unfold regular
      split
      · exact ih (n + 1)
      · simpa using ih n

theorem mem_regular {n : Nat} (h : c ∈ s.regular n conns) : c ∈ conns ∧ s.snubbing c = false := by
  induction conns generalizing n with
  | nil => cases n <;> simp [regular] at h
  | cons d conns ih =>
    cases n with
    | zero => simp [regular] at h
    | succ n =>
      unfold regular at h
      split at h
      next =>
        obtain ⟨hmem, hs⟩ := ih h
        exact ⟨mem_cons_of_mem d hmem, hs⟩
      next hd =>
        rcases mem_cons.mp h with rfl | h
        · exact ⟨mem_cons_self .., by simpa using hd⟩
        · obtain ⟨hmem, hs⟩ := ih h
          exact ⟨mem_cons_of_mem d hmem, hs⟩

theorem chokePrevious_spec (s : ChokeLoop) (toUnchoke : List Conn) :
    Keeps s (s.chokePrevious toUnchoke) ∧
      ∀ c, (s.chokePrevious toUnchoke).amChoking c = false → s.amChoking c = false := by
  unfold chokePrevious
  split
  · exact ⟨.refl s, fun c h => h⟩
  · split
    next prev _ _ =>
      refine ⟨.setChoking s prev true, fun c h => ?_⟩
      rw [amChoking_setChoking] at h
      split at h
      · cases h
      · exact h
    next => exact ⟨.refl s, fun c h => h⟩

theorem slots_spec (s : ChokeLoop) (sorted : List Conn) (pick : Nat) :
    Keeps s (s.slots sorted pick).1 ∧
    (∀ c, (s.slots sorted pick).1.amChoking c = false → s.amChoking c = false) ∧
    (s.slots sorted pick).2.length ≤ unchokeSlots ∧
    ∀ u ∈ (s.slots sorted pick).2, u ∈ sorted ∧ s.snubbing u = false ∨
      s.counter % 3 ≠ 0 ∧ s.optimistic = some u := by
  have hlen := length_regular_le s (unchokeSlots - 1) sorted
  have hslots : unchokeSlots - 1 + 1 = unchokeSlots := rfl
  unfold slots
  dsimp only
  generalize hreg : s.regular (unchokeSlots - 1) sorted = regular at hlen ⊢
  have hmem : ∀ u ∈ regular, u ∈ sorted ∧ s.snubbing u = false := by
    intro u hu
    exact mem_regular (hreg ▸ hu)
  have hle : regular.length ≤ unchokeSlots := by omega
  split
  next h3 =>
    obtain ⟨hk, hmono⟩ := chokePrevious_spec s regular
    unfold rotate
    dsimp only
    split
    next => exact ⟨hk, hmono, hle, fun u hu => .inl (hmem u hu)⟩
    next conn hpick =>
      refine ⟨hk.trans ⟨⟨_, rfl⟩, fun _ => rfl, fun _ => rfl⟩, hmono, ?_, fun u hu => .inl ?_⟩
      · simp only [length_append, length_singleton]
        omega
      · rcases mem_append.mp hu with hu | hu
        · exact hmem u hu
        · obtain rfl := mem_singleton.mp hu
          have hcand := mem_of_getElem? hpick
          simp only [candidates, mem_filter, hk.snubbing, Bool.and_eq_true,
            Bool.not_eq_true'] at hcand
          exact ⟨hcand.1, hcand.2.1⟩
  next h3 =>
    unfold keep
    split
    next => exact ⟨.refl s, fun c h => h, hle, fun u hu => .inl (hmem u hu)⟩
    next prev hprev =>
      split
      · refine ⟨.refl s, fun c h => h, ?_, fun u hu => ?_⟩
        · simp only [length_append, length_singleton]
          omega
        · rcases mem_append.mp hu with hu | hu
          · exact .inl (hmem u hu)
          · obtain rfl := mem_singleton.mp hu
            exact .inr ⟨h3, hprev⟩
      · exact ⟨⟨⟨_, rfl⟩, fun _ => rfl, fun _ => rfl⟩, fun c h => h, hle,
          fun u hu => .inl (hmem u hu)⟩

/-! ## A pass -/

theorem collect_locals (s : ChokeLoop) (conns : List Conn) :
    (collect s conns).1.counter = s.counter ∧ (collect s conns).1.optimistic = s.optimistic := by
  induction conns generalizing s with
  | nil => exact ⟨rfl, rfl⟩
  | cons c conns ih =>
    unfold collect
    split
    · exact ih s
    · split
      · exact ih (s.setChoking c true)
      · exact ih s

section

variable (hnodup : (s.allPeers.map Conn.object).Nodup)

include hnodup

theorem collect_pass {s₁ : ChokeLoop} {interested : List Conn}
    (h : collect { s with counter := s.counter + 1 } s.allPeers = (s₁, interested)) :
    Keeps s s₁ ∧ s₁.counter = s.counter + 1 ∧ s₁.optimistic = s.optimistic ∧
      interested.Sublist s.allPeers ∧
      (∀ c ∈ interested, s.peerIsInterested c = true ∧
        (s.amChoking c = true ∨ s.snubbing c = false)) ∧
      ∀ c ∈ s.allPeers, s₁.amChoking c = false →
        s.peerIsInterested c = false ∧ s.amChoking c = false ∨ c ∈ interested := by
  have hk := collect_keeps { s with counter := s.counter + 1 } s.allPeers
  have hsub := collect_sublist { s with counter := s.counter + 1 } s.allPeers
  have hloc := collect_locals { s with counter := s.counter + 1 } s.allPeers
  have hspec : ∀ c ∈ s.allPeers, (s₁.amChoking c =
      (s.amChoking c || s.peerIsInterested c && s.snubbing c)) ∧ (c ∈ interested ↔
        s.peerIsInterested c = true ∧ (s.amChoking c = true ∨ s.snubbing c = false)) := by
    intro c hc
    have hspec := collect_spec { s with counter := s.counter + 1 } hnodup hc
    rw [h] at hspec
    exact hspec
  rw [h] at hk hsub hloc
  refine ⟨⟨hk.registry, hk.interested, hk.lastData⟩, hloc.1, hloc.2, hsub, ?_, ?_⟩
  · intro c hc
    exact (hspec c (hsub.subset hc)).2.mp hc
  · intro c hc hch
    obtain ⟨hch₁, hmem⟩ := hspec c hc
    rw [hch₁] at hch
    cases hint : s.peerIsInterested c with
    | false => simp_all
    | true => simp_all

theorem applySlots_left {s₂ : ChokeLoop} {chosen : List Conn} {c : Conn}
    (hsorted : ∀ e ∈ sorted, e ∈ s.allPeers) (hnodup' : (sorted.map Conn.object).Nodup)
    (hc : c ∈ s.allPeers) (hch : (applySlots chosen s₂ sorted).amChoking c = false) :
    c ∈ sorted ∧ hasPeer chosen c = true ∨ c ∉ sorted ∧ s₂.amChoking c = false := by
  by_cases hmem : c ∈ sorted
  · rw [applySlots_spec _ _ hnodup' hmem, Bool.not_eq_false'] at hch
    exact .inl ⟨hmem, hch⟩
  · have hobj : ∀ e ∈ sorted, c.object ≠ e.object := by
      intro e he heq
      have hce := inj_on_of_nodup_map hnodup hc (hsorted e he) heq
      exact hmem (hce ▸ he)
    rw [applySlots_frame _ _ hobj] at hch
    exact .inr ⟨hmem, hch⟩

/-- **The connections that a pass leaves unchoked**: those that were and whose peers are not
    interested, and interested ones of at most twelve chosen peers that did not snub us. -/
theorem pass_unchoked {isSeed : Bool} {pick : Nat} (h : s.pass isSeed sorted pick = some s') :
    Keeps s s' ∧ ∃ chosen : List Conn, chosen.length ≤ unchokeSlots ∧
      (∀ u ∈ chosen, u ∈ s.allPeers ∧ s.snubbing u = false ∨
        (s.counter + 1) % 3 ≠ 0 ∧ s.optimistic = some u) ∧
      ∀ c ∈ s.allPeers, s'.amChoking c = false →
        s.peerIsInterested c = false ∧ s.amChoking c = false ∨
        s.peerIsInterested c = true ∧ (s.amChoking c = true ∨ s.snubbing c = false) ∧
          hasPeer chosen c = true := by
  obtain ⟨⟨s₁, interested⟩, hcollect⟩ :
      ∃ r, collect { s with counter := s.counter + 1 } s.allPeers = r := ⟨_, rfl⟩
  obtain ⟨hk₁, hcounter, hopt, hsub, hint, hleft⟩ := collect_pass hnodup hcollect
  have hpass : s.pass isSeed sorted pick = if interested = [] then some s₁
      else if s₁.SortedOf isSeed interested sorted then
        some ((applySlots (s₁.slots sorted pick).2 (s₁.slots sorted pick).1 sorted).resetTraffic
          (applySlots (s₁.slots sorted pick).2 (s₁.slots sorted pick).1 sorted).allPeers)
      else none := by
    have hall : ({ s with counter := s.counter + 1 } : ChokeLoop).allPeers = s.allPeers := rfl
    simp only [pass, hall, hcollect]
  rw [hpass] at h
  split at h
  next hnil =>
    cases h
    refine ⟨hk₁, [], Nat.zero_le _, by simp, fun c hc hch => .inl ?_⟩
    refine (hleft c hc hch).resolve_right ?_
    simp [hnil]
  next =>
    split at h
    next hsorted =>
      cases h
      obtain ⟨hk₂, hmono, hlen, hchosen⟩ := slots_spec s₁ sorted pick
      have hk₃ := applySlots_keeps (s₁.slots sorted pick).2 (s₁.slots sorted pick).1 sorted
      have hnodup' : (sorted.map Conn.object).Nodup :=
        ((hsorted.1.map _).nodup_iff).mpr ((hsub.map _).nodup hnodup)
      refine ⟨((hk₁.trans hk₂).trans hk₃).trans ⟨⟨_, rfl⟩, fun _ => rfl, fun _ => rfl⟩,
        (s₁.slots sorted pick).2, hlen, ?_, ?_⟩
      · intro u hu
        obtain ⟨hmem, hsnub⟩ | ⟨h3, hprev⟩ := hchosen u hu
        · exact .inl ⟨hsub.subset (hsorted.1.subset hmem), (hk₁.snubbing u).symm.trans hsnub⟩
        · exact .inr ⟨hcounter ▸ h3, hopt.symm.trans hprev⟩
      · intro c hc hch
        change (applySlots (s₁.slots sorted pick).2 (s₁.slots sorted pick).1 sorted).amChoking c =
          false at hch
        obtain ⟨hmem, hchosen⟩ | ⟨hmem, hch⟩ := applySlots_left hnodup
          (fun e he => hsub.subset (hsorted.1.subset he)) hnodup' hc hch
        · obtain ⟨hi, hs⟩ := hint c (hsorted.1.subset hmem)
          exact .inr ⟨hi, hs, hchosen⟩
        · have hnot : c ∉ interested := fun hin => hmem (hsorted.1.symm.subset hin)
          exact .inl ((hleft c hc (hmono c hch)).resolve_right hnot)
    next => cases h

end

end ChokeLoop

/-! ## The connections -/

def Registry.Distinct (r : Registry) : Prop :=
  (r.manager.activeConnections.entries.map fun e => e.2.object).Nodup

namespace Registry

variable {r : Registry} {maxTotal maxPerIp : Nat}

theorem Distinct.of_sublist (h : r.Distinct) {m : PeerManager}
    (hsub : m.activeConnections.entries.Sublist r.manager.activeConnections.entries) :
    Distinct { r with manager := m } := (hsub.map _).nodup h

theorem Distinct.add (hw : r.Within maxTotal maxPerIp) (h : r.Distinct) (peerId peerAddr : Bytes)
    (traffic : Traffic) : (r.add peerId peerAddr traffic).2.Distinct := by
  have hadded := (r.allocate traffic).addConnection_added peerId (r.newConn peerId peerAddr)
  have hinsert : ∀ part : OrdMap Bytes Conn,
      part.entries.Sublist r.manager.activeConnections.entries →
      ((part.insert peerId (r.newConn peerId peerAddr)).entries.map fun e => e.2.object).Nodup := by
    intro part hsub
    have hsub' := (part.entries_erase_sublist peerId).trans hsub
    rw [((part.entries_insert_perm peerId _).map _).nodup_iff, map_cons, nodup_cons]
    refine ⟨fun hmem => ?_, (hsub'.map _).nodup h⟩
    obtain ⟨e, he, hobj⟩ := mem_map.mp hmem
    have hlt := hw.made e (hsub'.subset he)
    have hnew : e.2.object = r.objects := hobj
    omega
  change (((r.allocate traffic).addConnection peerId
    (r.newConn peerId peerAddr)).2.activeConnections.entries.map fun e => e.2.object).Nodup
  generalize ((r.allocate traffic).addConnection peerId
    (r.newConn peerId peerAddr)).2.activeConnections = conns at hadded ⊢
  generalize ((r.allocate traffic).addConnection peerId (r.newConn peerId peerAddr)).1 = added
    at hadded
  cases hadded with
  | refused => exact h
  | room => exact hinsert _ (Sublist.refl _)
  | evicted worst => exact hinsert _ (OrdMap.entries_erase_sublist ..)

theorem Distinct.step (hw : r.Within maxTotal maxPerIp) (h : r.Distinct) (call : ManagerCall) :
    (r.step call).Distinct := by
  cases call with
  | addConnection peerId peerAddr traffic => exact h.add hw peerId peerAddr traffic
  | removeConnection id conn =>
    obtain ⟨conns, hsub, heq⟩ := r.manager.removeConnection_eq id conn
    rw [Registry.step, heq]
    exact h.of_sublist hsub
  | banPeerByIp ip => exact h.of_sublist (PeerManager.closeFrom_sublist _ ip)
  | transfer object traffic => exact h
  | wait time => exact h
  | cancel => exact h

end Registry

namespace ChokeLoop

variable {s s' : ChokeLoop} {maxTotal maxPerIp : Nat}

structure Sound (maxTotal maxPerIp : Nat) (s : ChokeLoop) : Prop where
  within : s.registry.Within maxTotal maxPerIp
  distinct : s.registry.Distinct

theorem Sound.nodup_objects (h : Sound maxTotal maxPerIp s) :
    (s.allPeers.map Conn.object).Nodup := by
  have hd := h.distinct
  rw [Registry.Distinct] at hd
  rw [allPeers, map_map]
  exact hd

theorem Sound.nodup_peerIds (h : Sound maxTotal maxPerIp s) :
    (s.allPeers.map Conn.peerId).Nodup := by
  have hkeys : s.allPeers.map Conn.peerId =
      s.registry.manager.activeConnections.entries.map Prod.fst := by
    rw [allPeers, map_map]
    exact map_congr_left h.within.keyed
  rw [hkeys, Nodup, pairwise_map]
  exact s.registry.manager.activeConnections.sorted.imp fun hlt => ne_of_lt hlt

theorem Keeps.sound (hk : Keeps s s') (h : Sound maxTotal maxPerIp s) :
    Sound maxTotal maxPerIp s' := by
  obtain ⟨traffic, hreg⟩ := hk.registry
  constructor
  · rw [hreg]
    exact h.within.of_sublist (Sublist.refl _) rfl rfl
  · rw [hreg]
    exact h.distinct.of_sublist (Sublist.refl _)

theorem sound_start (maxTotal maxPerIp : Nat) : Sound maxTotal maxPerIp (start maxTotal maxPerIp) :=
  ⟨Registry.within_start maxTotal maxPerIp, nodup_nil⟩

theorem connect_registry (s : ChokeLoop) (peerId peerAddr : Bytes) (traffic : Traffic) :
    (s.connect peerId peerAddr traffic).registry = (s.registry.add peerId peerAddr traffic).2 := by
  unfold connect fastStart
  dsimp only
  split
  · split <;> rfl
  · rfl

theorem onMessage_registry {object : Nat} {f : PeerFlags → PeerFlags}
    (h : s.onMessage object (·.setFlags object f) = some s') : s'.registry = s.registry := by
  unfold onMessage at h
  split at h
  · cases h
    rfl
  · cases h

theorem Sound.step {a : ChokeStep} (h : Sound maxTotal maxPerIp s) (hstep : s.step a = some s') :
    Sound maxTotal maxPerIp s' := by
  have hsame : s'.registry = s.registry → Sound maxTotal maxPerIp s' := by
    intro heq
    exact ⟨heq ▸ h.within, heq ▸ h.distinct⟩
  have hcall : ∀ call, s'.registry = s.registry.step call → Sound maxTotal maxPerIp s' := by
    intro call heq
    exact ⟨heq ▸ h.within.step call, heq ▸ h.distinct.step h.within call⟩
  cases a with
  | call call =>
    refine hcall call ?_
    cases call with
    | addConnection peerId peerAddr traffic =>
      cases hstep
      exact connect_registry s peerId peerAddr traffic
    | _ =>
      rw [← Option.some.inj hstep]
  | interested | notInterested | request | block => exact hsame (onMessage_registry hstep)
  | pass isSeed sorted pick => exact (pass_unchoked h.nodup_objects hstep).1.sound h

end ChokeLoop

end P2P
