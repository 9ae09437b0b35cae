import Mathlib.Data.List.Perm.Subperm
import P2P.ForStd.Tasks
import P2P.Spec.ChokeLoop

/-!
# Upload slots

A pass unchokes twelve peers at most, but it does not look at connections whose peers are not
interested.
-/

namespace P2P

open List

namespace ChokeLoop

variable {s s' : ChokeLoop} {maxTotal maxPerIp pick : Nat} {isSeed : Bool} {sorted : List Conn}
  {es : List ChokeStep}

theorem exists_last_pass
    (hrun : runSteps step (es ++ [.pass isSeed sorted pick]) (start maxTotal maxPerIp) = some s) :
    ∃ s₁, runSteps step es (start maxTotal maxPerIp) = some s₁ ∧ Sound maxTotal maxPerIp s₁ ∧
      s₁.pass isSeed sorted pick = some s := by
  rw [runSteps_append] at hrun
  obtain ⟨s₁, hrun₁, hlast⟩ := Option.bind_eq_some_iff.mp hrun
  refine ⟨s₁, hrun₁, ?_, ?_⟩
  · exact runSteps_preserves (fun _ _ _ h hI => Sound.step hI h) hrun₁ (sound_start ..)
  · simpa [runSteps, step] using hlast

def unchoked (s : ChokeLoop) : Nat := s.allPeers.countP fun c => !s.amChoking c

def idle (s : ChokeLoop) : Nat :=
  s.allPeers.countP fun c => !s.peerIsInterested c && !s.amChoking c

def asking (s : ChokeLoop) : Nat := s.allPeers.countP s.peerIsInterested

/-- The unchoked connections of uninterested peers leave room for the interested ones, of which a
    pass chooses twelve at most. -/
def LeavesRoom (s : ChokeLoop) : ChokeStep → Prop
  | .pass .. => s.idle + min s.asking unchokeSlots ≤ unchokeSlots
  | _ => True

instance LeavesRoom.decidable (s : ChokeLoop) : (a : ChokeStep) → Decidable (s.LeavesRoom a) := by
  intro st
  unfold LeavesRoom
  split <;> infer_instance

theorem countP_hasPeer_le {conns : List Conn} (hnodup : (conns.map Conn.peerId).Nodup)
    (chosen : List Conn) : conns.countP (hasPeer chosen) ≤ chosen.length := by
  rw [countP_eq_length_filter]
  have hsub : ((conns.filter (hasPeer chosen)).map Conn.peerId) ⊆ chosen.map Conn.peerId := by
    intro id hid
    obtain ⟨c, hc, rfl⟩ := mem_map.mp hid
    have hpeer := (mem_filter.mp hc).2
    simp only [hasPeer, any_eq_true, decide_eq_true_eq] at hpeer
    obtain ⟨u, hu, heq⟩ := hpeer
    exact heq ▸ mem_map_of_mem hu
  have hnodup' : ((conns.filter (hasPeer chosen)).map Conn.peerId).Nodup :=
    ((filter_sublist ..).map _).nodup hnodup
  simpa using (hnodup'.subperm hsub).length_le

theorem pass_unchoked_le (h : Sound maxTotal maxPerIp s)
    (hpass : s.pass isSeed sorted pick = some s') :
    s'.unchoked ≤ s.idle + min s.asking unchokeSlots := by
  obtain ⟨hk, chosen, hlen, -, hleft⟩ := pass_unchoked h.nodup_objects hpass
  have hcount : s'.unchoked ≤ s.idle +
      s.allPeers.countP fun c => s.peerIsInterested c && hasPeer chosen c := by
    rw [unchoked, hk.allPeers]
    refine countP_le_add fun c hc hch => ?_
    obtain ⟨hi, ha⟩ | ⟨hi, -, hp⟩ := hleft c hc (by simpa using hch)
    · exact .inl (by simp [hi, ha])
    · exact .inr (by simp [hi, hp])
  have hslots : (s.allPeers.countP fun c => s.peerIsInterested c && hasPeer chosen c) ≤
      chosen.length := by
    refine le_trans (countP_mono_left fun c _ hc => ?_)
      (countP_hasPeer_le h.nodup_peerIds chosen)
    exact (Bool.and_eq_true _ _ ▸ hc).2
  have hasking : (s.allPeers.countP fun c => s.peerIsInterested c && hasPeer chosen c) ≤
      s.asking := by
    refine countP_mono_left fun c _ hc => ?_
    exact (Bool.and_eq_true _ _ ▸ hc).1
  omega

/-- **At most twelve connections are unchoked after a pass**, in every run without connections at
    first in which those that no pass looks at leave room whenever one begins. -/
theorem unchoked_le
    (hrun : runSteps step (es ++ [.pass isSeed sorted pick]) (start maxTotal maxPerIp) = some s)
    (hroom : StepsMeet step LeavesRoom (es ++ [.pass isSeed sorted pick])
      (start maxTotal maxPerIp)) : s.unchoked ≤ unchokeSlots := by
  obtain ⟨s₁, hrun₁, hsound, hpass⟩ := exists_last_pass hrun
  exact (pass_unchoked_le hsound hpass).trans (hroom.at hrun₁)

def newPeer (i : UInt8) : ChokeStep := .call (.addConnection [i] [i, 58, 49] {})

theorem unchoked_le_two :
    let es : List ChokeStep := [newPeer 0, newPeer 1, .interested 0, .interested 1]
    ∃ s, runSteps step (es ++ [.pass false [⟨0, [0], [0, 58, 49]⟩, ⟨1, [1], [1, 58, 49]⟩] 0])
        (start 500 4) = some s ∧ s.unchoked = 2 ∧ s.unchoked ≤ unchokeSlots := by
  intro es
  have hrun : runSteps step
      (es ++ [.pass false [⟨0, [0], [0, 58, 49]⟩, ⟨1, [1], [1, 58, 49]⟩] 0]) (start 500 4) =
      some _ := rfl
  exact ⟨_, hrun, rfl, unchoked_le hrun (by decide)⟩

/-- Twelve peers connect, are unchoked and never become interested. -/
theorem unchoked_le_exceeded :
    let es : List ChokeStep := [newPeer 0, newPeer 1, newPeer 2, newPeer 3, newPeer 4, newPeer 5,
      newPeer 6, newPeer 7, newPeer 8, newPeer 9, newPeer 10, newPeer 11, newPeer 12,
      .interested 12]
    ∃ s, runSteps step (es ++ [.pass false [⟨12, [12], [12, 58, 49]⟩] 0]) (start 500 4) = some s ∧
      s.unchoked = 13 :=
  ⟨_, rfl, rfl⟩

/-- On a pass that picks nobody, the remembered peer is not interested, choked and snubbing us. -/
def RemembersFresh (s : ChokeLoop) : ChokeStep → Prop
  | .pass .. => (s.counter + 1) % 3 = 0 ∨ ∀ prev ∈ s.optimistic.toList, ∀ c ∈ s.allPeers,
      c.peerId = prev.peerId → s.peerIsInterested c = true → s.amChoking c = true →
        s.snubbing c = false
  | _ => True

instance RemembersFresh.decidable (s : ChokeLoop) :
    (a : ChokeStep) → Decidable (s.RemembersFresh a) := by
  intro st
  unfold RemembersFresh
  split <;> infer_instance

theorem pass_snubbing (h : Sound maxTotal maxPerIp s) (hpass : s.pass isSeed sorted pick = some s')
    (hfresh : s.RemembersFresh (.pass isSeed sorted pick)) {c : Conn} (hc : c ∈ s'.allPeers)
    (hi : s'.peerIsInterested c = true) (hs : s'.snubbing c = true) : s'.amChoking c = true := by
  obtain ⟨hk, chosen, -, hchosen, hleft⟩ := pass_unchoked h.nodup_objects hpass
  rw [hk.allPeers] at hc
  rw [hk.peerIsInterested] at hi
  rw [hk.snubbing] at hs
  by_contra hch
  obtain ⟨hi', -⟩ | ⟨-, hfree, hp⟩ := hleft c hc (by simpa using hch)
  · simp [hi] at hi'
  have hchoked : s.amChoking c = true := by
    obtain hch' | hs' := hfree
    · exact hch'
    · simp [hs] at hs'
  -- so the slot is that of a chosen peer with the same id
  simp only [hasPeer, any_eq_true, decide_eq_true_eq] at hp
  obtain ⟨u, hu, hid⟩ := hp
  obtain ⟨hmem, hsnub⟩ | ⟨h3, hprev⟩ := hchosen u hu
  · obtain rfl := inj_on_of_nodup_map h.nodup_peerIds hmem hc hid
    simp [hs] at hsnub
  · obtain h3' | hfresh := hfresh
    · exact h3 h3'
    · have hsnub := hfresh u (by simp [hprev]) c hc hid.symm hi hchoked
      simp [hs] at hsnub

/-- **After a pass no peer that snubs us has a slot**, in every run in which no pass gives the
    remembered optimistic peer its slot back while it does. -/
theorem snubbing_choked
    (hrun : runSteps step (es ++ [.pass isSeed sorted pick]) (start maxTotal maxPerIp) = some s)
    (hfresh : StepsMeet step RemembersFresh (es ++ [.pass isSeed sorted pick])
      (start maxTotal maxPerIp)) :
    ∀ c ∈ s.allPeers, s.peerIsInterested c = true → s.snubbing c = true →
      s.amChoking c = true := by
  obtain ⟨s₁, hrun₁, hsound, hpass⟩ := exists_last_pass hrun
  intro c hc hi hs
  exact pass_snubbing hsound hpass (hfresh.at hrun₁) hc hi hs

def firstPeer : Conn := ⟨0, [0], [0, 58, 49]⟩

theorem snubbing_choked_first :
    let es : List ChokeStep := [newPeer 0, .interested 0, .block 0,
      .call (.wait 61000000000)]
    ∃ s, runSteps step (es ++ [.pass false [] 0]) (start 500 4) = some s ∧
      s.snubbing firstPeer = true ∧ s.amChoking firstPeer = true := by
  intro es
  have hrun : runSteps step (es ++ [.pass false [] 0]) (start 500 4) = some _ := rfl
  exact ⟨_, hrun, by decide, snubbing_choked hrun (by decide) firstPeer (by decide) rfl (by decide)⟩

/-- The first peer is choked for snubbing us, sends a block, and is the optimistic peer later. -/
theorem snubbing_choked_remembered :
    let es : List ChokeStep := [newPeer 0, .interested 0, .block 0, .pass false [firstPeer] 0,
      .call (.wait 61000000000), .pass false [] 0, .block 0, .pass false [firstPeer] 0,
      .call (.wait 61000000000), .pass false [] 0]
    ∃ s, runSteps step (es ++ [.pass false [firstPeer] 0]) (start 500 4) = some s ∧
      firstPeer ∈ s.allPeers ∧ s.peerIsInterested firstPeer = true ∧
      s.snubbing firstPeer = true ∧ s.amChoking firstPeer = false :=
  ⟨_, rfl, by decide, rfl, by decide, rfl⟩

end ChokeLoop

end P2P
