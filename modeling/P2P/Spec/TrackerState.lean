import P2P.Native.TrackerState
import P2P.Spec.BencodeComplete

/-!
# The registry after a restart

The document has info hashes and addresses in the order of the maps, so that reading it builds the
same maps.
-/

namespace P2P

open Bencode List

def PeerEntry.truncated (e : PeerEntry) : PeerEntry :=
  ⟨e.left, e.lastAnnounce.tdiv 1000000000 * 1000000000⟩

/-- What the C++ types guarantee: strings are shorter than `PTRDIFF_MAX`, and a time is a 64-bit
    number of nanoseconds. -/
structure PeerRegistry.Fits (r : PeerRegistry) : Prop where
  infoHash : ∀ e ∈ r.entries, e.1.length < 2 ^ 63
  address : ∀ e ∈ r.entries, ∀ p ∈ e.2.entries, p.1.length < 2 ^ 63
  time : ∀ e ∈ r.entries, ∀ p ∈ e.2.entries,
    -2 ^ 63 ≤ p.2.lastAnnounce ∧ p.2.lastAnnounce < 2 ^ 63

theorem fromTimeT_toTimeT {time : Int} (hlow : -2 ^ 63 ≤ time) (hhigh : time < 2 ^ 63) :
    fromTimeT (toTimeT time) = time.tdiv 1000000000 * 1000000000 := by
  have hdiv : -2 ^ 63 ≤ time.tdiv 1000000000 ∧ time.tdiv 1000000000 < 2 ^ 63 := by
    rw [Int.tdiv_eq_ediv, show Int.sign 1000000000 = 1 from rfl]
    split <;> omega
  have hsec : (toTimeT time).toInt = time.tdiv 1000000000 :=
    Int64.toInt_ofInt_of_le hdiv.1 hdiv.2
  rw [fromTimeT, hsec]

section Load

variable {σ : Type} (s : σ)

theorem run_loadPeers (peerMap : OrdMap Bytes PeerEntry) {peers : List (Bytes × PeerEntry)}
    (htime : ∀ p ∈ peers, -2 ^ 63 ≤ p.2.lastAnnounce ∧ p.2.lastAnnounce < 2 ^ 63) :
    (loadPeers peerMap (peers.map savedPeer)).run.run s =
      (.ok (peers.foldl (fun m p => m.insert p.1 p.2.truncated) peerMap), s) := by
  induction peers generalizing peerMap with
  | nil => rfl
  | cons p peers ih =>
    obtain ⟨hlow, hhigh⟩ := htime p mem_cons_self
    show (loadPeers (peerMap.insert p.1 ⟨p.2.left, fromTimeT (toTimeT p.2.lastAnnounce)⟩)
      (peers.map savedPeer)).run.run s = _
    rw [ih _ fun q hq => htime q (mem_cons_of_mem _ hq), fromTimeT_toTimeT hlow hhigh]
    rfl

theorem run_loadHashes {r : PeerRegistry} {rows : List (Bytes × OrdMap Bytes PeerEntry)}
    (hsorted : Assoc.Sorted rows) (hnew : ∀ e ∈ rows, r.get? e.1 = none)
    (htime : ∀ e ∈ rows, ∀ p ∈ e.2.entries,
      -2 ^ 63 ≤ p.2.lastAnnounce ∧ p.2.lastAnnounce < 2 ^ 63) :
    (loadHashes r (rows.map fun e => (e.1, savedPeers e.2))).run.run s =
      (.ok (rows.foldl (fun r e => r.insert e.1 (e.2.mapValues PeerEntry.truncated)) r), s) := by
  induction rows generalizing r with
  | nil => rfl
  | cons e rows ih =>
    obtain ⟨hlt, hsorted⟩ := pairwise_cons.mp hsorted
    show (loadPeers ((r.get? e.1).getD .empty) (e.2.entries.map savedPeer) >>= fun peerMap =>
      loadHashes (r.insert e.1 peerMap) (rows.map fun e => (e.1, savedPeers e.2))).run.run s = _
    rw [Throwing.run_bind, run_loadPeers s _ (htime e mem_cons_self),
      hnew e mem_cons_self, Option.getD_none, OrdMap.foldl_insert_mapValues]
    apply ih hsorted
    · intro e' he'
      rw [OrdMap.get?_insert, if_neg (hlt e' he').ne']
      exact hnew e' (mem_cons_of_mem _ he')
    · exact fun e' he' => htime e' (mem_cons_of_mem _ he')

end Load

theorem PeerRegistry.Fits.wf {r : PeerRegistry} (h : r.Fits) :
    (dictOf (r.entries.map fun e => (e.1, savedPeers e.2))).WF := by
  apply wf_dictOf
  intro entry hentry
  obtain ⟨e, he, rfl⟩ := mem_map.mp hentry
  refine ⟨h.infoHash e he, Value.wfItems_of_forall ?_⟩
  intro v hv
  obtain ⟨p, hp, rfl⟩ := mem_map.mp hv
  apply wf_dictOf
  simp only [forall_mem_cons]
  exact ⟨⟨by decide, h.address e he p hp⟩, ⟨by decide, trivial⟩, ⟨by decide, trivial⟩, nofun⟩

/-- Saving a registry and loading the file in a new tracker gives the same info hashes, addresses
    and `left`, and times without the fractions of a second. -/
theorem tracker_state_persisted {r : PeerRegistry} (h : r.Fits) :
    PeerRegistry.loadState .empty (some r.saveState) =
      r.mapValues fun peers => peers.mapValues PeerEntry.truncated := by
  let peersDict := r.entries.map fun e => (e.1, savedPeers e.2)
  have hwf : (dictOf [(.ascii "peers", dictOf peersDict)]).WF := by
    apply wf_dictOf
    simp only [forall_mem_cons]
    exact ⟨⟨by decide, h.wf⟩, forall_mem_nil _⟩
  have hdecode : decode r.saveState = .ok (dictOf [(.ascii "peers", dictOf peersDict)]) :=
    decode_encode hwf
  have hdata : r.saveState.isEmpty = false := by
    rw [isEmpty_eq_false_iff]
    intro hnil
    rw [hnil] at hdecode
    cases hdecode
  have hpeers : dictOf peersDict = .dict peersDict := dictOf_of_sorted (r.sorted_map savedPeers)
  have hload := run_loadHashes () r.sorted (r := .empty) (fun _ _ => rfl) h.time
  rw [OrdMap.foldl_insert_mapValues r fun peers => peers.mapValues PeerEntry.truncated] at hload
  rw [PeerRegistry.loadState, hdata, hdecode, hpeers]
  dsimp only
  rw [if_neg (by decide)]
  split
  · next hrun => exact Except.ok.inj (hrun.symm.trans (congrArg Prod.fst hload))
  · next hrun => cases hrun.symm.trans (congrArg Prod.fst hload)

theorem tracker_state_persisted_one :
    ∃ r : PeerRegistry, r.entries.length = 2 ∧
      ((PeerRegistry.loadState .empty (some r.saveState)).get? [1, 255]).map (·.entries) =
        some [([10, 0, 0, 1, 26, 225], ⟨-1, 2000000000⟩)] := by
  let peers : OrdMap Bytes PeerEntry :=
    OrdMap.empty.insert [10, 0, 0, 1, 26, 225] ⟨-1, 2500000000⟩
  let r : PeerRegistry := (OrdMap.empty.insert [1, 255] peers).insert [] .empty
  have hfits : r.Fits := by
    constructor <;> decide
  refine ⟨r, rfl, ?_⟩
  rw [tracker_state_persisted hfits]
  rfl

end P2P
