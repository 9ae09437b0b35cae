import Mathlib.Data.Finset.Card
import P2P.Native.Pex
import P2P.Spec.BencodeComplete
import P2P.Spec.Handshake

/-!
# Lists of peers on the wire

The receiver reads back what the sender has put into the two strings, whatever the endpoints are.
-/

namespace P2P

namespace PexPeers

open Bencode Bytes List

variable {f : Endpoint → PexPeers → PexPeers} {peerPort : UInt16}

theorem length_compact (ep : Endpoint) : ep.compact.length = 6 := (compactPeerAddr _ _).2

theorem readPairs_compact (ep : Endpoint) (rest : Bytes) (s : PexPeers) :
    readPairs f (ep.compact ++ rest) s = readPairs f rest (f ep s) := by
  have hport : fromBe16 (toBe16 ep.port) = ep.port := fromBe16_toBe16 ep.port
  change readPairs f rest (f ⟨ep.address, fromBe16 (toBe16 ep.port)⟩ s) = _
  rw [hport]

theorem readPairs_populateDropped (l : List Endpoint) (s : PexPeers) :
    readPairs f (populateDropped l) s = (.handled, l.foldl (fun s ep => f ep s) s) := by
  induction l generalizing s with
  | nil => rfl
  | cons ep l ih => rw [populateDropped, readPairs_compact, ih, foldl_cons]

theorem length_populateDropped (l : List Endpoint) : (populateDropped l).length = 6 * l.length := by
  induction l with
  | nil => rfl
  | cons ep l ih =>
    rw [populateDropped, length_append, length_compact, ih, length_cons]
    omega

/-- One endpoint more than the limit is sent. -/
theorem populateAdded_eq {maxPeers : Nat} (l : List Endpoint) (n : Nat) (h : n ≤ maxPeers) :
    populateAdded maxPeers l n = populateDropped (l.take (maxPeers - n + 1)) := by
  induction l generalizing n with
  | nil => rfl
  | cons ep l ih =>
    rw [populateAdded, take_succ_cons, populateDropped]
    split
    · rw [show maxPeers - n = 0 by omega, take_zero, populateDropped]
    · rw [ih _ (by omega), show maxPeers - (n + 1) + 1 = maxPeers - n by omega]

theorem foldl_addDiscovered (l : List Endpoint) (s : PexPeers) :
    l.foldl (fun s ep => addDiscovered peerPort ep s) s =
      { s with
        discovered := s.discovered ∪ l.toFinset.erase ⟨⟨127, 0, 0, 1⟩, peerPort⟩ } := by
  induction l generalizing s with
  | nil =>
    rw [toFinset_nil, Finset.erase_empty, Finset.union_empty]
    rfl
  | cons ep l ih =>
    rw [foldl_cons, ih, addDiscovered, toFinset_cons]
    by_cases hown : ep = ⟨⟨127, 0, 0, 1⟩, peerPort⟩
    · rw [if_pos hown, hown, Finset.erase_insert_eq_erase]
    · rw [if_neg hown, Finset.erase_insert_of_ne hown, Finset.union_insert,
        ← Finset.insert_union]

theorem foldl_addDropped (l : List Endpoint) (s : PexPeers) :
    l.foldl (fun s ep => addDropped ep s) s =
      { s with dropped := s.dropped ++ l, discovered := s.discovered \ l.toFinset } := by
  induction l generalizing s with
  | nil => simp
  | cons ep l ih =>
    rw [foldl_cons, ih, addDropped, toFinset_cons, Finset.sdiff_insert,
      Finset.erase_sdiff_comm, append_assoc, singleton_append]

theorem find?_pexDict (added dropped : Bytes) :
    Assoc.find? (pexDict added dropped) (ascii "added") =
        (if added.isEmpty then none else some (.str added)) ∧
      Assoc.find? (pexDict added dropped) (ascii "dropped") =
        (if dropped.isEmpty then none else some (.str dropped)) := by
  cases added <;> cases dropped <;> exact ⟨rfl, rfl⟩

theorem wf_pexDict {added dropped : Bytes} (hadded : added.length < 2 ^ 63)
    (hdropped : dropped.length < 2 ^ 63) : (Value.dict (pexDict added dropped)).WF := by
  have hentry : ∀ p ∈ pexDict added dropped, p.1.length < 2 ^ 63 ∧ p.2.WF := by
    intro p hp
    rw [pexDict, mem_append] at hp
    rcases hp with hp | hp
    · split at hp
      · cases hp
      · rw [mem_singleton.mp hp]
        exact ⟨(by decide : (ascii "added").length < 2 ^ 63), hadded⟩
    · split at hp
      · cases hp
      · rw [mem_singleton.mp hp]
        exact ⟨(by decide : (ascii "dropped").length < 2 ^ 63), hdropped⟩
  refine ⟨?_, Value.wfEntries_of_forall hentry⟩
  have hlt : ascii "added" < ascii "dropped" := by decide
  cases added <;> cases dropped <;> simp [pexDict, Assoc.Sorted, hlt]

theorem readList_populateDropped (l : List Endpoint) (s : PexPeers) :
    readList f (if (populateDropped l).isEmpty then none else some (.str (populateDropped l))) s =
      (.handled, l.foldl (fun s ep => f ep s) s) := by
  rw [← readPairs_populateDropped]
  by_cases h : (populateDropped l).isEmpty
  · rw [if_pos h, isEmpty_iff.mp h]
    rfl
  · rw [if_neg h]
    rfl

theorem receive_pexDict {active dropped : List Endpoint} (hactive : 6 * active.length < 2 ^ 63)
    (hdropped : 6 * dropped.length < 2 ^ 63) (s : PexPeers) :
    receive peerPort
        (if (pexDict (populateDropped active) (populateDropped dropped)).isEmpty then none
          else some (encode (.dict
            (pexDict (populateDropped active) (populateDropped dropped))))) s =
      (.handled, dropped.foldl (fun s ep => addDropped ep s)
        (active.foldl (fun s ep => addDiscovered peerPort ep s) s)) := by
  obtain ⟨hadd, hdrop⟩ := find?_pexDict (populateDropped active) (populateDropped dropped)
  have hwf := wf_pexDict (length_populateDropped active ▸ hactive)
    (length_populateDropped dropped ▸ hdropped)
  have hread : onUtPex peerPort
      (encode (.dict (pexDict (populateDropped active) (populateDropped dropped)))) s =
      (.handled, dropped.foldl (fun s ep => addDropped ep s)
        (active.foldl (fun s ep => addDiscovered peerPort ep s) s)) := by
    rw [onUtPex, decode_encode hwf]
    dsimp only
    rw [hadd, hdrop, readList_populateDropped, if_pos rfl, readList_populateDropped]
  by_cases hempty : (pexDict (populateDropped active) (populateDropped dropped)).isEmpty
  · rw [if_pos hempty, ← hread, onUtPex, decode_encode hwf, isEmpty_iff.mp hempty]
    rfl
  · rw [if_neg hempty]
    exact hread

theorem receive_pexMessage (maxPeers : Nat) {sender : PexPeers}
    (hactive : 6 * sender.active.length < 2 ^ 63) (hdropped : 6 * sender.dropped.length < 2 ^ 63)
    (receiver : PexPeers) :
    receive peerPort (sender.pexMessage maxPeers).1 receiver = (.handled, { receiver with
      discovered := (receiver.discovered ∪
        (sender.active.take (maxPeers + 1)).toFinset.erase ⟨⟨127, 0, 0, 1⟩, peerPort⟩) \
          sender.dropped.toFinset
      dropped := receiver.dropped ++ sender.dropped }) := by
  have htake : (sender.active.take (maxPeers + 1)).length ≤ sender.active.length :=
    length_take_le' _ _
  rw [pexMessage, populateAdded_eq _ 0 (Nat.zero_le maxPeers), Nat.sub_zero,
    receive_pexDict (by omega) hdropped, foldl_addDiscovered, foldl_addDropped]

/-- Every receiver learns `min maxPeers n` of the active endpoints and removes those that were
    dropped; when it has sent its own round, the sender has none of these to send again. -/
def ListsSurvive (maxPeers : Nat) (sender : PexPeers) : Prop :=
  ∃ learned ⊆ sender.active.toFinset, learned.card = min maxPeers sender.active.length ∧
    ∀ (peerPort : UInt16) (receiver : PexPeers),
      let round := sender.pexMessage maxPeers
      let received := receive peerPort round.1 receiver
      received.1 = .handled ∧
      received.2.discovered = (receiver.discovered ∪
        learned.erase ⟨⟨127, 0, 0, 1⟩, peerPort⟩) \ sender.dropped.toFinset ∧
      ∀ senderPort, ∀ ep ∈ sender.dropped,
        ep ∉ (receive senderPort (received.2.pexMessage maxPeers).1 round.2).2.dropped

/-- The loopback address is erased for one port only, so two receivers show all that was sent. -/
theorem eq_of_erase_loopback {a b : Finset Endpoint}
    (h : ∀ p, a.erase ⟨⟨127, 0, 0, 1⟩, p⟩ = b.erase ⟨⟨127, 0, 0, 1⟩, p⟩) : a = b := by
  ext ep
  have hne : ep ≠ ⟨⟨127, 0, 0, 1⟩, ep.port + 1⟩ := by
    intro heq
    have hport := congrArg Endpoint.port heq
    simp at hport
  have hmem := Finset.ext_iff.mp (h (ep.port + 1)) ep
  simpa [Finset.mem_erase, hne] using hmem

end PexPeers

open PexPeers in
/-- The lists survive exactly if there are no more active endpoints than the limit and none was
    dropped: the receiver sends back what it was told to drop. -/
theorem pex_lists_survive (maxPeers : Nat) (sender : PexPeers)
    (hactive : 6 * sender.active.length < 2 ^ 63) (hdropped : 6 * sender.dropped.length < 2 ^ 63) :
    sender.ListsSurvive maxPeers ↔ sender.active.length ≤ maxPeers ∧ sender.dropped = [] := by
  have hreceive := fun peerPort receiver =>
    @receive_pexMessage peerPort maxPeers sender hactive hdropped receiver
  constructor
  · rintro ⟨learned, -, hcard, hall⟩
    have hnone : sender.dropped = [] := by
      refine List.eq_nil_iff_forall_not_mem.mpr fun ep hep => ?_
      have honce := (hall 0 ⟨[], .nil, ∅, []⟩).2.2 0 ep hep
      rw [hreceive, receive_pexMessage maxPeers (by simp) (by simpa using hdropped)] at honce
      exact honce (by simpa [pexMessage] using hep)
    refine ⟨?_, hnone⟩
    have hlearned : (sender.active.take (maxPeers + 1)).toFinset = learned := by
      refine eq_of_erase_loopback fun p => ?_
      have hdisc := (hall p ⟨[], .nil, ∅, []⟩).2.1
      dsimp only at hdisc
      rw [hreceive, hnone] at hdisc
      simpa using hdisc
    rw [← hlearned, List.toFinset_card_of_nodup (sender.active_nodup.sublist
      (List.take_sublist _ _)), List.length_take] at hcard
    omega
  · rintro ⟨hmax, hnone⟩
    refine ⟨sender.active.toFinset, subset_rfl, ?_, fun p receiver => ?_⟩
    · rw [List.toFinset_card_of_nodup sender.active_nodup, min_eq_right hmax]
    · dsimp only
      rw [hreceive, List.take_of_length_le (by omega), hnone]
      exact ⟨rfl, rfl, fun _ _ hep => absurd hep List.not_mem_nil⟩

def twoActive : PexPeers where
  active := [⟨⟨10, 0, 0, 1⟩, 6881⟩, ⟨⟨10, 0, 0, 2⟩, 6881⟩]
  active_nodup := by decide
  discovered := ∅
  dropped := [⟨⟨10, 0, 0, 3⟩, 6881⟩]

def noPeers : PexPeers := ⟨[], .nil, ∅, []⟩

theorem pex_lists_survive_fifty :
    PexPeers.ListsSurvive 50 { twoActive with dropped := [] } ∧ ¬ twoActive.ListsSurvive 50 :=
  ⟨(pex_lists_survive 50 _ (by decide) (by decide)).mpr (by decide),
    fun h => absurd ((pex_lists_survive 50 _ (by decide) (by decide)).mp h) (by decide)⟩

open PexPeers in
/-- With a limit of one the receiver learns two endpoints. -/
theorem pex_sends_one_too_many :
    let round := twoActive.pexMessage 1
    let received := receive 6882 round.1 noPeers
    let answered := receive 6881 (received.2.pexMessage 1).1 round.2
    received.2.discovered.card = 2 ∧ round.2.dropped = [] ∧
      answered.2.dropped = twoActive.dropped := by
  decide +kernel

end P2P
