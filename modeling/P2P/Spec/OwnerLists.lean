import P2P.Native.BlockRequests

/-!
# The owners of a block

Several coroutines enter peers for the blocks of a piece and take them off again.
-/

namespace P2P

open List

def BlockRequests.Tidy (b : BlockRequests) : Prop :=
  b.outstanding.Nodup ∧ (b.received = false → b.armed = true → b.outstanding ≠ [])

variable {b : BlockRequests} {blocks : List BlockRequests}

theorem BlockRequests.Tidy.register (h : b.Tidy) (peerId : Bytes) : (b.register peerId).Tidy := by
  unfold Tidy BlockRequests.register at *
  split
  · exact h
  · next hnew =>
    refine ⟨?_, by simp⟩
    simp only [nodup_append, h.1]
    grind

theorem BlockRequests.Tidy.recordRequestSent (h : b.Tidy) (peerId : Bytes) :
    (b.recordRequestSent peerId).Tidy := by
  unfold BlockRequests.recordRequestSent
  split
  · exact h
  · refine ⟨(h.register peerId).1, fun _ _ hnil => ?_⟩
    -- the peer itself is an owner
    have hmem : peerId ∈ (b.register peerId).outstanding := by
      unfold BlockRequests.register
      grind
    rw [show (b.register peerId).outstanding = [] from hnil] at hmem
    cases hmem

theorem RequestEvent.apply_tidy (e : RequestEvent) (h : ∀ b ∈ blocks, b.Tidy) :
    ∀ b ∈ e.apply blocks, b.Tidy := by
  have hmodify : ∀ (i : Nat) (f : BlockRequests → BlockRequests), (∀ b, b.Tidy → (f b).Tidy) →
      ∀ b ∈ blocks.modify i f, b.Tidy := by
    intro i f hf b hb
    obtain ⟨j, hj⟩ := mem_iff_getElem?.mp hb
    rw [getElem?_modify] at hj
    obtain ⟨b₀, hb₀, rfl⟩ := Option.map_eq_some_iff.mp hj
    have hb₀ := h b₀ (mem_of_getElem? hb₀)
    split
    · exact hf b₀ hb₀
    · exact hb₀
  have hfilter : ∀ (b : BlockRequests) (peerId : Bytes), b.Tidy →
      (b.outstanding.filter (· ≠ peerId)).Nodup := fun b peerId hb => hb.1.filter _
  cases e with
  | register block peerId => exact hmodify _ _ fun b hb => hb.register peerId
  | recordRequestSent begin peerId => exact hmodify _ _ fun b hb => hb.recordRequestSent peerId
  | pieceBlock begin endgame =>
    apply hmodify
    intro b hb
    unfold BlockRequests.Tidy BlockRequests.clear at *
    grind
  | reject begin peerId =>
    apply hmodify
    intro b hb
    refine ⟨hfilter b peerId hb, ?_⟩
    simp only [BlockRequests.reject]
    grind
  | dropPeer peerId =>
    intro b hb
    obtain ⟨b₀, hb₀, rfl⟩ := mem_map.mp hb
    refine ⟨hfilter b₀ peerId (h b₀ hb₀), ?_⟩
    simp only [BlockRequests.dropPeer]
    grind
  | sendCancelForBlock block => exact hmodify _ _ fun b _ => ⟨nodup_nil, nofun⟩

/-- The flags are those of a piece that has just been started or restored. -/
theorem owner_lists_tidy (flags : List Bool) (events : List RequestEvent) :
    ∀ b ∈ events.foldl RequestEvent.apply (flags.map fun received => { received := received }),
      b.outstanding.Nodup ∧ (b.received = false → b.armed = true → b.outstanding ≠ []) := by
  have hstart : ∀ b ∈ flags.map fun received => ({ received := received } : BlockRequests),
      b.Tidy := by
    intro b hb
    obtain ⟨received, -, rfl⟩ := mem_map.mp hb
    exact ⟨nodup_nil, nofun⟩
  revert hstart
  generalize flags.map _ = blocks
  induction events generalizing blocks with
  | nil => exact id
  | cons e events ih => exact fun h => ih _ (e.apply_tidy h)

theorem owner_lists_tidy_rejected :
    ∃ b ∈ [.register 0 [1], .recordRequestSent 0 [2], .reject 0 [1]].foldl RequestEvent.apply [{}],
      b.outstanding = [[2]] ∧ b.armed = true ∧ b.outstanding.Nodup ∧ b.outstanding ≠ [] := by
  have htidy := owner_lists_tidy [false] [.register 0 [1], .recordRequestSent 0 [2], .reject 0 [1]]
    _ (.head _)
  exact ⟨_, .head _, rfl, rfl, htidy.1, htidy.2 rfl rfl⟩

end P2P
