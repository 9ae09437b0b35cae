import P2P.Native.DhtState
import P2P.Spec.BencodeComplete
import P2P.Spec.Hex
import P2P.Spec.RouteTable

/-!
# The routing table after a restart

The entries are written bucket by bucket and inserted in this order.
-/

namespace P2P

open Bencode RouteTable Decimal List

theorem octet?_printNat (b : UInt8) : octet? (printNat b.toNat) = some b := by
  have hlt := b.toNat_lt
  simp [octet?, canonNat_printNat, digitsVal_printNat, hlt]

theorem not_mem_printNat {b : UInt8} (hb : isDigit b = false) (n : Nat) : b ∉ printNat n := by
  intro hmem
  have hdigit := all_eq_true.mp (printNat_all_isDigit n) b hmem
  simp [hb] at hdigit

theorem AddressV4.text_eq (ip : AddressV4) :
    ip.text = [(46 : UInt8)].intercalate
      ([ip.b0, ip.b1, ip.b2, ip.b3].map fun b => printNat b.toNat) := by
  have hpoint : Bytes.ascii "." = [46] := rfl
  simp [AddressV4.text, hpoint, intercalate]

theorem makeAddressV4?_text (ip : AddressV4) : makeAddressV4? ip.text = some ip := by
  have hparts : ∀ part ∈ [ip.b0, ip.b1, ip.b2, ip.b3].map fun b => printNat b.toNat,
      (46 : UInt8) ∉ part := by
    intro part hpart
    obtain ⟨b, -, rfl⟩ := mem_map.mp hpart
    exact not_mem_printNat rfl _
  have hzero : ip.text.takeWhile (· ≠ 0) = ip.text := by
    have hno : ∀ n, (0 : UInt8) ∉ printNat n := not_mem_printNat rfl
    have hpoint : Bytes.ascii "." = [46] := rfl
    rw [takeWhile_eq_self_iff]
    intro b hb
    apply decide_eq_true
    rintro rfl
    simp [AddressV4.text, hpoint, hno] at hb
  rw [makeAddressV4?, hzero, AddressV4.text_eq, splitOn_intercalate _ hparts (by simp)]
  simp [octet?_printNat]

def reloaded (now : Int) (e : BucketEntry) : BucketEntry := ⟨e.id, e.endpoint, .good, now, now⟩

theorem loadedNode_savedNode (e : BucketEntry) (now : Int) :
    loadedNode (savedNode e) now = .ok (some (reloaded now e)) := by
  show loadedEntry (bytesToHex e.id.val) e.endpoint.address.text
    e.endpoint.port.toUInt64.toInt64 now = _
  rw [loadedEntry, hexToBytes_bytesToHex]
  simp [e.id.property, makeAddressV4?_text, reloaded]

theorem loadNodes_savedNodes (now : Int) (rt : RouteTable) (entries : List BucketEntry) :
    loadNodes now rt (entries.map savedNode) =
      (entries.map (reloaded now)).foldl (fun rt e => rt.insert e now) rt := by
  induction entries generalizing rt with
  | nil => rfl
  | cons e entries ih =>
    rw [map_cons, loadNodes, loadedNode_savedNode]
    exact ih _

theorem KBucket.add_of_room {b : KBucket} {e : BucketEntry} (hnew : e.id ∉ b.bucket.map (·.id))
    (hroom : b.bucket.length < bucketCapacity) (now : Int) :
    (b.add e now).1 = ⟨b.bucket ++ [e], now⟩ := by
  have hfind : b.bucket.find? (·.id = e.id) = none := by
    rw [find?_eq_none]
    intro x hx hid
    exact hnew (of_decide_eq_true hid ▸ mem_map_of_mem hx)
  simp [KBucket.add, hfind, hroom]

namespace RouteTable

variable {rt : RouteTable} {now : Int}

theorem entriesAt_insert_of_room {e : BucketEntry} (hown : e.id ≠ rt.myNodeId)
    (hnew : e.id ∉ (rt.entriesAt (getBucketIndex rt.myNodeId e.id)).map (·.id))
    (hroom : (rt.entriesAt (getBucketIndex rt.myNodeId e.id)).length < bucketCapacity)
    (now : Int) (i : Nat) :
    (rt.insert e now).entriesAt i =
      rt.entriesAt i ++ [e].filter (getBucketIndex rt.myNodeId ·.id = i) := by
  have hidx : getBucketIndex rt.myNodeId e.id < 160 := by
    rw [getBucketIndex_eq hown.symm]
    exact commonPrefix_lt hown.symm
  rw [entriesAt_of_lt hidx] at hnew hroom
  rw [insert, if_neg hown, entriesAt_modify rt hidx]
  split
  · next hi => simp [hi, KBucket.add_of_room hnew hroom, entriesAt_of_lt hidx]
  · next hi => simp [Ne.symm hi]

theorem myNodeId_insert (e : BucketEntry) (now : Int) : (rt.insert e now).myNodeId = rt.myNodeId :=
  myNodeId_step (e := .insert e now) rfl

theorem entriesAt_foldl_insert {l : List BucketEntry} (hown : ∀ e ∈ l, e.id ≠ rt.myNodeId)
    (hnodup : ∀ i, ((rt.entriesAt i ++
      l.filter (getBucketIndex rt.myNodeId ·.id = i)).map (·.id)).Nodup)
    (hroom : ∀ i, (rt.entriesAt i ++
      l.filter (getBucketIndex rt.myNodeId ·.id = i)).length ≤ bucketCapacity)
    (now : Int) (i : Nat) :
    (l.foldl (fun rt e => rt.insert e now) rt).entriesAt i =
      rt.entriesAt i ++ l.filter (getBucketIndex rt.myNodeId ·.id = i) := by
  induction l generalizing rt with
  | nil => simp
  | cons e l ih =>
    have hadd : ∀ i, (rt.insert e now).entriesAt i ++
        l.filter (getBucketIndex rt.myNodeId ·.id = i) =
        rt.entriesAt i ++ (e :: l).filter (getBucketIndex rt.myNodeId ·.id = i) := by
      have hnew := hnodup (getBucketIndex rt.myNodeId e.id)
      have hlen := hroom (getBucketIndex rt.myNodeId e.id)
      simp only [filter_cons, decide_true, if_true, length_append, length_cons]
        at hlen
      intro i
      rw [entriesAt_insert_of_room (hown e mem_cons_self) ?_ (by omega), append_assoc,
        ← filter_append, singleton_append]
      simp only [filter_cons, decide_true, if_true, map_append, map_cons] at hnew
      exact fun hmem => disjoint_of_nodup_append hnew hmem mem_cons_self
    rw [foldl_cons, ih, myNodeId_insert, hadd]
    · rw [myNodeId_insert]
      exact fun x hx => hown x (mem_cons_of_mem _ hx)
    · rw [myNodeId_insert]
      exact fun i => hadd i ▸ hnodup i
    · rw [myNodeId_insert]
      exact fun i => hadd i ▸ hroom i

theorem allEntries_eq (rt : RouteTable) : rt.allEntries = (range 160).flatMap rt.entriesAt := by
  have hbuckets : rt.buckets.toList.map (·.bucket) = (range 160).map rt.entriesAt := by
    apply ext_getElem
    · simp
    · intro i hi _
      have hi160 : i < 160 := by simpa using hi
      simp [entriesAt_of_lt hi160]
  rw [allEntries, flatMap_def, hbuckets, ← flatMap_def]

theorem AllFit.filter_allEntries (h : rt.AllFit) (i : Nat) :
    rt.allEntries.filter (getBucketIndex rt.myNodeId ·.id = i) = rt.entriesAt i := by
  have hplace : ∀ j, ∀ e ∈ rt.entriesAt j, getBucketIndex rt.myNodeId e.id = j := by
    intro j e he
    obtain ⟨hne, hj⟩ := h.place he
    rw [getBucketIndex_eq hne.symm, hj]
  have hself : (rt.entriesAt i).filter (getBucketIndex rt.myNodeId ·.id = i) = rt.entriesAt i := by
    rw [filter_eq_self]
    exact fun e he => decide_eq_true (hplace i e he)
  have hother : ∀ j, j ≠ i →
      (rt.entriesAt j).filter (getBucketIndex rt.myNodeId ·.id = i) = [] := by
    intro j hj
    rw [filter_eq_nil_iff]
    intro e he
    simpa [hplace j e he] using hj
  rw [allEntries_eq, filter_flatMap]
  by_cases hi : i < 160
  · rw [flatMap_eq_of_single nodup_range (mem_range.mpr hi) fun j _ => hother j, hself]
  · have hempty : rt.entriesAt i = [] := by
      rw [entriesAt, Vector.getElem?_eq_none (by omega)]
      rfl
    rw [hempty, flatMap_eq_nil_iff]
    intro j hj
    have hlt := mem_range.mp hj
    exact hother j (by omega)

end RouteTable

theorem AddressV4.length_text_lt (ip : AddressV4) : ip.text.length < 2 ^ 63 := by
  have hnum : ∀ b : UInt8, (printNat b.toNat).length ≤ 256 := by
    intro b
    have hle := length_printNat_le b.toNat
    have hlt := b.toNat_lt
    omega
  have hpoint : Bytes.ascii "." = [46] := rfl
  have h0 := hnum ip.b0
  have h1 := hnum ip.b1
  have h2 := hnum ip.b2
  have h3 := hnum ip.b3
  simp only [AddressV4.text, hpoint, length_append, length_singleton]
  omega

theorem wf_hex (id : NodeId) : (Value.str (bytesToHex id.val)).WF := by
  show (bytesToHex id.val).length < 2 ^ 63
  rw [length_bytesToHex, id.property]
  decide

theorem wf_savedRoot (isV4 : BucketEntry → Bool) (n : DhtNode) : (savedRoot isV4 n).WF := by
  have hnode : ∀ e : BucketEntry, (savedNode e).WF := by
    intro e
    apply wf_dictOf
    simp only [forall_mem_cons]
    exact ⟨⟨by decide, wf_hex e.id⟩, ⟨by decide, e.endpoint.address.length_text_lt⟩,
      ⟨by decide, trivial⟩, nofun⟩
  apply wf_dictOf
  simp only [forall_mem_cons]
  refine ⟨⟨by decide, wf_hex n.myNodeId⟩, ⟨by decide, Value.wfItems_of_forall ?_⟩, nofun⟩
  intro v hv
  obtain ⟨e, -, rfl⟩ := mem_map.mp hv
  exact hnode e

theorem routingTable_loadPersistedState (isV4 : BucketEntry → Bool) (n m : DhtNode) :
    (loadPersistedState (some (savePersistedState isV4 n)) m).routingTable =
      ((n.routingTable.allEntries.filter isV4).map (reloaded m.now)).foldl
        (fun rt e => rt.insert e m.now) m.routingTable := by
  have hdecode : decode (savePersistedState isV4 n) = .ok (savedRoot isV4 n) :=
    decode_encode (wf_savedRoot isV4 n)
  have hdata : (savePersistedState isV4 n).isEmpty = false := by
    rw [isEmpty_eq_false_iff]
    intro hnil
    rw [hnil] at hdecode
    cases hdecode
  rw [← loadNodes_savedNodes, loadPersistedState]
  simp only [hdata, hdecode]
  rfl

/-- Saving a routing table made by inserts and status updates, and loading the file into a new table
    of the node, gives every bucket the same ids and endpoints, of the entries with IPv4 endpoints,
    in the same order. -/
theorem dht_state_persisted {id : NodeId} {start : Int} {es : List RouteTable.Step}
    {rt : RouteTable} (hrun : runSteps step es (new id start) = some rt)
    (isV4 : BucketEntry → Bool) {n : DhtNode} (hn : n.routingTable = rt) (now : Int) (i : Nat) :
    ((loadPersistedState (some (savePersistedState isV4 n)) (DhtNode.new id now)).routingTable
        |>.entriesAt i).map (fun e => (e.id, e.endpoint)) =
      ((rt.entriesAt i).filter isV4).map fun e => (e.id, e.endpoint) := by
  have hfit : rt.AllFit :=
    runSteps_preserves (fun _ _ _ hstep h => h.step hstep) hrun (.new id start)
  have hid := (routeTable_invariant hrun).1
  have hempty : ∀ i, (new id now).entriesAt i = [] := by
    intro i
    simp only [entriesAt, new, Vector.getElem?_replicate]
    split <;> rfl
  -- what is inserted into a bucket are the saved entries of the old bucket
  have hpart : ∀ i, ((rt.allEntries.filter isV4).map (reloaded now)).filter
      (getBucketIndex id ·.id = i) = ((rt.entriesAt i).filter isV4).map (reloaded now) := by
    intro i
    rw [filter_map, filter_filter, ← hfit.filter_allEntries i, filter_filter, hid]
    congr 1
    apply filter_congr
    intro e _
    exact Bool.and_comm _ _
  have hids : ∀ l : List BucketEntry, (l.map (reloaded now)).map (·.id) = l.map (·.id) := by
    intro l
    rw [map_map]
    rfl
  rw [routingTable_loadPersistedState, hn]
  show (entriesAt (foldl _ (new id now) _) i).map _ = _
  rw [entriesAt_foldl_insert ?_ ?_ ?_, hempty, nil_append]
  · show (((rt.allEntries.filter isV4).map (reloaded now)).filter
      (getBucketIndex id ·.id = i)).map _ = _
    rw [hpart, map_map]
    rfl
  · intro e he
    obtain ⟨e', he', rfl⟩ := mem_map.mp he
    have hown := hfit.valid.not_own e' (mem_of_mem_filter he')
    rwa [hid] at hown
  · intro i
    show (map _ (_ ++ ((rt.allEntries.filter isV4).map (reloaded now)).filter
      (getBucketIndex id ·.id = i))).Nodup
    rw [hpart, hempty, nil_append, hids, ← hfit.filter_allEntries i]
    exact hfit.nodup.sublist ((filter_sublist.trans filter_sublist).map _)
  · intro i
    show (_ ++ ((rt.allEntries.filter isV4).map (reloaded now)).filter
      (getBucketIndex id ·.id = i)).length ≤ _
    rw [hpart, hempty, nil_append, length_map]
    exact Nat.le_trans (length_filter_le _ _) (hfit.valid.length_le i)

theorem dht_state_persisted_two :
    ∃ rt, runSteps step [.insert (entryOf 192 .good) 1,
        .insert (entryOf 128 .bad) 2] (new (idOf 0) 0) = some rt ∧
      ((loadPersistedState (some (savePersistedState (fun _ => true)
          { DhtNode.new (idOf 0) 0 with routingTable := rt }))
          (DhtNode.new (idOf 0) 5)).routingTable.entriesAt 0).map (·.id) =
        [idOf 192, idOf 128] := by
  have hstate : (runSteps step [.insert (entryOf 192 .good) 1,
      .insert (entryOf 128 .bad) 2] (new (idOf 0) 0)).map
        (fun rt => (rt.entriesAt 0).map (·.id)) =
      some [idOf 192, idOf 128] := by decide +kernel
  obtain ⟨rt, hrun, hids⟩ := Option.map_eq_some_iff.mp hstate
  refine ⟨rt, hrun, ?_⟩
  have hsame := congrArg (map Prod.fst) (dht_state_persisted hrun (fun _ => true)
    (n := { DhtNode.new (idOf 0) 0 with routingTable := rt }) rfl 5 0)
  simp only [map_map, filter_true] at hsame
  exact hsame.trans hids

end P2P
