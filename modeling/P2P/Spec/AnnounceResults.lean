import Mathlib.Data.Fintype.Prod
import P2P.Native.TrackerClient
import P2P.Spec.BencodeComplete
import P2P.Spec.Tracker

/-!
# What a client gets from an announce

Both clients turn the reply of the tracker into texts `ip:port`.
-/

namespace P2P

open List

namespace Tracker

/-! ## Records -/

theorem toNat_shift_or (n : UInt32) (b : UInt8) :
    ((n <<< 8) ||| b.toUInt32).toNat = n.toNat * 256 % 2 ^ 32 + b.toNat := by
  have hb : b.toNat < 2 ^ 8 := b.toNat_lt
  have hshift : n.toNat * 256 % 2 ^ 32 = (n.toNat % 2 ^ 24) <<< 8 := by
    rw [Nat.shiftLeft_eq]
    omega
  have hleft : (n <<< 8).toNat = n.toNat * 256 % 2 ^ 32 := by
    rw [UInt32.toNat_shiftLeft]
    simp [Nat.shiftLeft_eq]
  rw [UInt32.toNat_or, hleft, UInt8.toNat_toUInt32, hshift, Nat.shiftLeft_add_eq_or_of_lt hb]

theorem toBe32_fromBe32 (a b c d : UInt8) : toBe32 (fromBe32 [a, b, c, d]) = [a, b, c, d] := by
  have ha := a.toNat_lt
  have hb := b.toNat_lt
  have hc := c.toNat_lt
  have hd := d.toNat_lt
  have hval : (fromBe32 [a, b, c, d]).toNat =
      ((a.toNat * 256 + b.toNat) * 256 + c.toNat) * 256 + d.toNat := by
    simp only [fromBe32, networkToHostLong, drop_zero, take_succ_cons, take_zero,
      foldl_cons, foldl_nil, toNat_shift_or]
    simp
    omega
  generalize fromBe32 [a, b, c, d] = n at hval
  have h0 : (n >>> 24).toUInt8 = a := by
    apply UInt8.toNat_inj.mp
    simp [Nat.shiftRight_eq_div_pow]
    omega
  have h1 : (n >>> 16).toUInt8 = b := by
    apply UInt8.toNat_inj.mp
    simp [Nat.shiftRight_eq_div_pow]
    omega
  have h2 : (n >>> 8).toUInt8 = c := by
    apply UInt8.toNat_inj.mp
    simp [Nat.shiftRight_eq_div_pow]
    omega
  have h3 : n.toUInt8 = d := by
    apply UInt8.toNat_inj.mp
    simp
    omega
  rw [toBe32, hostToNetworkLong, h0, h1, h2, h3]

def PeerKey.text (k : PeerKey) : Bytes := peerText k.ip k.port

theorem compactPeer_addr (k : PeerKey) : compactPeer k.addr.val = k.text := by
  change peerText k.ip (fromBe16 (toBe16 k.port)) = peerText k.ip k.port
  rw [fromBe16_toBe16]

theorem udpPeer_addr (k : PeerKey) : udpPeer k.addr.val = k.text := by
  change peerText (.ofUInt (fromBe32 [k.ip.b0, k.ip.b1, k.ip.b2, k.ip.b3]))
    (fromBe16 (toBe16 k.port)) = peerText k.ip k.port
  rw [fromBe16_toBe16, AddressV4.ofUInt, toBe32_fromBe32]
  rfl

theorem map_slice_addrs {decode : Bytes → Bytes}
    (hdecode : ∀ k : PeerKey, decode k.addr.val = k.text) (keys : List PeerKey) {n : Nat}
    (hn : n ≤ keys.length) :
    (range n).map (fun i => decode ((addrs keys).slice (6 * i) 6)) =
      (keys.take n).map PeerKey.text := by
  apply ext_getElem?
  intro i
  rw [getElem?_map, getElem?_map, getElem?_take]
  by_cases hi : i < n
  · have hget : keys[i]? = some keys[i] := getElem?_eq_getElem (by omega)
    rw [getElem?_range hi, if_pos hi, hget, Option.map_some, Option.map_some, addrs,
      slice_flatMap (fun k => k.addr.property) hget, hdecode]
  · rw [if_neg hi, getElem?_eq_none (by simpa using hi)]
    rfl

/-! ## HTTP -/

variable {keys : List PeerKey}

theorem length_keys_le (hnodup : keys.Nodup) {infoHash : Bytes}
    (hhash : ∀ k ∈ keys, k.infoHash = infoHash) : keys.length ≤ 2 ^ 48 := by
  let code (k : PeerKey) : Fin 256 × Fin 256 × Fin 256 × Fin 256 × Fin 65536 :=
    (k.ip.b0.toFin, k.ip.b1.toFin, k.ip.b2.toFin, k.ip.b3.toFin, k.port.toFin)
  have hcode : (keys.map code).Nodup := by
    apply Nodup.map_on _ hnodup
    intro k hk k' hk' h
    simp only [code, Prod.mk.injEq, UInt8.toFin_inj, UInt16.toFin_inj] at h
    obtain ⟨h0, h1, h2, h3, hport⟩ := h
    have hsame : k.infoHash = k'.infoHash := by rw [hhash k hk, hhash k' hk']
    cases k with
    | mk infoHash ip port =>
      cases k' with
      | mk infoHash' ip' port' =>
        cases ip
        cases ip'
        simp_all
  have hcard := hcode.length_le_card
  simpa using hcard

theorem announceBody_eq (interval : Int32) (reply : AnnounceReply) :
    announceBody interval reply = Bencode.encode (.dict
      [(.ascii "complete", .int reply.complete.toInt64),
        (.ascii "incomplete", .int reply.incomplete.toInt64),
        (.ascii "interval", .int interval.toInt64), (.ascii "peers", .str reply.peers)]) :=
  rfl

theorem parse_announceBody (interval : Int32) (reply : AnnounceReply)
    (h : reply.peers.length < 2 ^ 63) :
    ∃ result, parseTrackerResponseBody (announceBody interval reply) = .ok result ∧
      result.peers = replyPeers (some (.str reply.peers)) := by
  have hwf : Value.WF (.dict
      [(.ascii "complete", .int reply.complete.toInt64),
        (.ascii "incomplete", .int reply.incomplete.toInt64),
        (.ascii "interval", .int interval.toInt64), (.ascii "peers", .str reply.peers)]) := by
    have hkeys : [Bytes.ascii "complete", .ascii "incomplete", .ascii "interval",
        .ascii "peers"].Pairwise (· < ·) := by decide
    exact ⟨pairwise_map.mp hkeys, by decide, trivial, by decide, trivial, by decide, trivial,
      by decide, h, trivial⟩
  have hdecode := Bencode.decodePrefix_encode_append hwf []
  rw [append_nil, ← announceBody_eq] at hdecode
  unfold parseTrackerResponseBody
  rw [hdecode]
  exact ⟨_, rfl, rfl⟩

theorem parse_addrs (interval : Int32) {reply : AnnounceReply} (hpeers : reply.peers = addrs keys)
    (hnodup : keys.Nodup) {infoHash : Bytes} (hhash : ∀ k ∈ keys, k.infoHash = infoHash) :
    ∃ result, parseTrackerResponseBody (announceBody interval reply) = .ok result ∧
      result.peers = keys.map PeerKey.text := by
  have hlen : reply.peers.length = 6 * keys.length := by rw [hpeers, length_addrs]
  have hle := length_keys_le hnodup hhash
  obtain ⟨result, hresult, hlist⟩ := parse_announceBody interval reply (by omega)
  refine ⟨result, hresult, ?_⟩
  rw [hlist, replyPeers, hlen, Nat.mul_div_cancel_left _ (by decide), hpeers,
    map_slice_addrs compactPeer_addr keys (Nat.le_refl _), take_length]

/-! ## UDP -/

def udpRoom : Nat := (udpResponseBufferSize - 20) / 6

def udpHeader (transactionId : UInt32) (interval : Int32) (reply : AnnounceReply) : Bytes :=
  toBe32 1 ++ (toBe32 transactionId ++ (toBe32 interval.toUInt32 ++
    (toBe32 reply.incomplete.toUInt32 ++ toBe32 reply.complete.toUInt32)))

theorem udpAnnounceResponse_eq (transactionId : UInt32) (interval : Int32) (reply : AnnounceReply) :
    udpAnnounceResponse transactionId interval reply =
      udpHeader transactionId interval reply ++ reply.peers := by
  simp [udpAnnounceResponse, udpHeader]

theorem udpAnnounceResult_response (transactionId : UInt32) (interval : Int32)
    {reply : AnnounceReply} (hpeers : reply.peers = addrs keys) :
    ∃ result,
      udpAnnounceResult transactionId (udpAnnounceResponse transactionId interval reply) =
        some result ∧ result.peers = (keys.take udpRoom).map PeerKey.text := by
  rw [udpAnnounceResponse_eq, hpeers]
  have hheader : (udpHeader transactionId interval reply).length = 20 := rfl
  have haction : fromBe32 ((udpHeader transactionId interval reply).take 4) = 1 := by
    rw [udpHeader, take_left' (length_toBe32 1), fromBe32_toBe32]
  have hid : fromBe32 ((udpHeader transactionId interval reply).slice 4 4) = transactionId := by
    change fromBe32 ((udpHeader transactionId interval reply).slice ((toBe32 1).length + 0) 4) = _
    rw [udpHeader, slice_append_right, slice, drop_zero,
      take_left' (length_toBe32 _), fromBe32_toBe32]
  generalize udpHeader transactionId interval reply = header at *
  -- the datagram, and what is received of it
  have hreceived (off len : Nat) (h : off + len ≤ 20) :
      ((header ++ addrs keys).take udpResponseBufferSize).slice off len = header.slice off len := by
    have htake : (header ++ addrs keys).take 20 = header := take_left' hheader
    rw [slice_take _ (by unfold udpResponseBufferSize; omega), ← slice_take _ h, htake]
  have hlen : ((header ++ addrs keys).take udpResponseBufferSize).length =
      min udpResponseBufferSize (20 + 6 * keys.length) := by
    rw [length_take, length_append, hheader, length_addrs]
  have hroom : (min udpResponseBufferSize (20 + 6 * keys.length) - 20) / 6 =
      min udpRoom keys.length := by
    unfold udpRoom udpResponseBufferSize
    omega
  unfold udpAnnounceResult
  dsimp only
  rw [hlen, if_neg (by unfold udpResponseBufferSize; omega), hreceived 4 4 (by omega), hid]
  have haction' : fromBe32 (((header ++ addrs keys).take udpResponseBufferSize).take 4) = 1 := by
    have h := hreceived 0 4 (by omega)
    rw [slice, slice, drop_zero, drop_zero] at h
    rw [h, haction]
  rw [haction', if_pos (by simp), hroom]
  refine ⟨_, rfl, ?_⟩
  have hrecord : ∀ i ∈ range (min udpRoom keys.length),
      udpPeer (((header ++ addrs keys).take udpResponseBufferSize).slice (20 + 6 * i) 6) =
        udpPeer ((addrs keys).slice (6 * i) 6) := by
    intro i hi
    rw [mem_range] at hi
    have hfits : 20 + 6 * i + 6 ≤ udpResponseBufferSize := by
      unfold udpRoom udpResponseBufferSize at *
      omega
    rw [slice_take _ hfits, ← hheader, slice_append_right]
  dsimp only
  rw [map_congr_left hrecord, map_slice_addrs udpPeer_addr keys (Nat.min_le_right _ _)]
  congr 1
  by_cases h : keys.length ≤ udpRoom
  · rw [Nat.min_eq_right h, take_length, take_of_length_le h]
  · rw [Nat.min_eq_left (by omega)]

/-! ## Announces -/

def clientPeers : Step → Response → Option (List Bytes)
  | .udp _ _ request _, .udp datagram =>
    (udpAnnounceResult (UdpAnnounceRequest.ofBytes request).transactionId datagram).map (·.peers)
  | _, .http response =>
    if response.status = 200 then
      (parseTrackerResponseBody response.body).toOption.map (·.peers)
    else none
  | _, _ => none

variable {t : Tracker} {a : Announce}

theorem exists_others (t : Tracker) (a : Announce) :
    ∃ keys : List PeerKey, keys.Nodup ∧
      (∀ k, k ∈ keys ↔ k.infoHash = a.key.infoHash ∧ (t.registry k).isSome ∧ k ≠ a.key) ∧
      (collectPeers ((t.register a.key.infoHash a.key.addr a.left).peers.row a.key.infoHash)
        a.key.addr).peers = addrs keys := by
  obtain ⟨hnodup, hmem, -, -, hpeers⟩ :=
    describes_collectPeers (t := t.register a.key.infoHash a.key.addr a.left) a.key
  refine ⟨((entriesOf _ a.key.infoHash).map Prod.fst).filter (· ≠ a.key), hnodup.filter _,
    fun k => ?_, hpeers⟩
  rw [registry_register] at hmem
  simp only [mem_filter, mem_map, Prod.exists, exists_and_right, exists_eq_right,
    hmem, decide_eq_true_eq, ne_eq]
  constructor
  · rintro ⟨⟨e, hhash, he⟩, hne⟩
    rw [Function.update_of_ne hne] at he
    exact ⟨hhash, by rw [he]; rfl, hne⟩
  · rintro ⟨hhash, hsome, hne⟩
    obtain ⟨e, he⟩ := Option.isSome_iff_exists.mp hsome
    exact ⟨⟨e, hhash, by rw [Function.update_of_ne hne, he]⟩, hne⟩

theorem clientPeers_respond {e : Step} (he : t.announced e = some a) (hstopped : a.stopped = false)
    (hnodup : keys.Nodup) (hhash : ∀ k ∈ keys, k.infoHash = a.key.infoHash)
    (hpeers : (collectPeers
      ((t.register a.key.infoHash a.key.addr a.left).peers.row a.key.infoHash) a.key.addr).peers =
      addrs keys) :
    (t.respond e).bind (clientPeers e) =
      if e.isUdp → (addrs keys).length ≤ 65487 then
        some ((if e.isUdp then keys.take udpRoom else keys).map PeerKey.text)
      else none := by
  rw [respond, handle_announce he hstopped]
  dsimp only
  rw [sent_render, hpeers, apply_ite (Option.bind · (clientPeers e)), Option.bind_some]
  congr 1
  cases e with
  | http ip target =>
    obtain ⟨result, hresult, hlist⟩ := parse_addrs t.interval hpeers hnodup hhash
    change (parseTrackerResponseBody (announceBody t.interval _)).toOption.map _ = _
    rw [hresult]
    exact congrArg some hlist
  | udp ip port request connectionId =>
    obtain ⟨result, hresult, hlist⟩ := udpAnnounceResult_response
      (UdpAnnounceRequest.ofBytes request).transactionId t.interval hpeers
    change (udpAnnounceResult _ _).map _ = _
    rw [hresult]
    exact congrArg some hlist
  | cleanup => cases he
  | wait time => cases he

/-- The client gets exactly the other registered peers of the info hash, each once, unless it says
    `stopped`; over UDP exactly when they fit into its buffer. -/
theorem announce_results_complete (t : Tracker) {a : Announce} (hstopped : a.stopped = false) :
    ∃ keys : List PeerKey, keys.Nodup ∧
      (∀ k, k ∈ keys ↔ k.infoHash = a.key.infoHash ∧ (t.registry k).isSome ∧ k ≠ a.key) ∧
      ∀ e, t.announced e = some a →
        ((∃ peers, (t.respond e).bind (clientPeers e) = some peers ∧
          peers.Perm (keys.map PeerKey.text)) ↔ (e.isUdp → keys.length ≤ 338)) := by
  obtain ⟨keys, hnodup, hmem, hpeers⟩ := exists_others t a
  refine ⟨keys, hnodup, hmem, fun e he => ?_⟩
  rw [clientPeers_respond he hstopped hnodup (fun k hk => ((hmem k).mp hk).1) hpeers, length_addrs]
  constructor
  · rintro ⟨peers, hgot, hperm⟩ hudp
    have hlength := hperm.length_eq
    split at hgot
    · rw [← Option.some.inj hgot, length_map, length_map, length_take] at hlength
      exact min_eq_right_iff.mp hlength
    · cases hgot
  · intro hfew
    rw [if_pos fun hudp => by have := hfew hudp; omega]
    refine ⟨_, rfl, ?_⟩
    split
    · rename_i hudp
      have hroom : keys.length ≤ udpRoom := hfew hudp
      rw [take_of_length_le hroom]
    · rfl

/-! ## More peers than fit -/

def crowdKey (i : Nat) : PeerKey := ⟨List.replicate 20 97, ⟨10, 0, 0, 2⟩, UInt16.ofNat i⟩

def crowd : Nat → Tracker
  | 0 => {
      now := 0
      udpClients := OrdMap.empty.insert (compactPeerAddr ⟨10, 0, 0, 1⟩ 6969)
        ⟨7, connectionIdLifetime⟩ }
  | n + 1 => (crowd n).register (crowdKey n).infoHash (crowdKey n).addr 1

theorem registry_crowd {n : Nat} {k : PeerKey} :
    ((crowd n).registry k).isSome ↔ k ∈ (range n).map crowdKey := by
  induction n with
  | zero => exact iff_of_false nofun nofun
  | succ n ih =>
    rw [crowd, registry_register, Function.update_apply, range_succ, map_append, mem_append, ← ih,
      map_singleton, mem_singleton]
    split <;> simp_all

theorem announced_crowd (n : Nat) : (crowd n).announced (overUdp 0) = some sameAnnounce := by
  induction n with
  | zero => decide +kernel
  | succ n ih =>
    -- registering a peer does not change which clients are connected
    exact ih

theorem announce_results_complete_one :
    ((crowd 1).respond overHttp).bind (clientPeers overHttp) = some [(crowdKey 0).text] ∧
      ((crowd 1).respond (overUdp 0)).bind (clientPeers (overUdp 0)) =
        some [(crowdKey 0).text] := by
  obtain ⟨keys, hnodup, hmem, hclient⟩ :=
    announce_results_complete (crowd 1) (a := sameAnnounce) rfl
  have hcrowd : keys.Perm [crowdKey 0] := by
    refine (perm_ext_iff_of_nodup hnodup (nodup_singleton _)).mpr fun k => ?_
    rw [hmem, registry_crowd]
    refine ⟨fun h => h.2.1, fun h => ?_⟩
    rw [mem_singleton.mp h]
    exact ⟨rfl, mem_singleton_self _, by decide⟩
  rw [perm_singleton.mp hcrowd] at hclient
  obtain ⟨peers, hhttp, hperm⟩ := (hclient overHttp (by decide +kernel)).mpr nofun
  obtain ⟨peers', hudp, hperm'⟩ := (hclient (overUdp 0) (announced_crowd 1)).mpr fun _ => by decide
  rw [hhttp, hudp, perm_singleton.mp hperm, perm_singleton.mp hperm']
  exact ⟨rfl, rfl⟩

/-- Of 339 registered peers the client gets 338 over UDP. -/
theorem announce_results_cut :
    ∃ (t : Tracker) (keys : List PeerKey) (peers : List Bytes),
      t.announced (overUdp 0) = some sameAnnounce ∧ keys.Nodup ∧ keys.length = 339 ∧
      (∀ k ∈ keys, k.infoHash = sameAnnounce.key.infoHash ∧ (t.registry k).isSome ∧
        k ≠ sameAnnounce.key) ∧
      (t.respond (overUdp 0)).bind (clientPeers (overUdp 0)) = some peers ∧
      peers.length = 338 := by
  obtain ⟨others, hnodup, hmem, hpeers⟩ := exists_others (crowd 339) sameAnnounce
  have hcrowd : ((range 339).map crowdKey).Nodup := by
    apply Nodup.map_on _ nodup_range
    intro i hi j hj h
    rw [mem_range] at hi hj
    have hport : UInt16.ofNat i = UInt16.ofNat j := congrArg PeerKey.port h
    have hnat := congrArg UInt16.toNat hport
    rwa [UInt16.toNat_ofNat', UInt16.toNat_ofNat', Nat.mod_eq_of_lt (by omega),
      Nat.mod_eq_of_lt (by omega)] at hnat
  have hothers : others.Perm ((range 339).map crowdKey) := by
    refine (perm_ext_iff_of_nodup hnodup hcrowd).mpr fun k => ?_
    rw [hmem, registry_crowd]
    refine ⟨fun h => h.2.1, fun h => ?_⟩
    obtain ⟨i, -, rfl⟩ := mem_map.mp h
    refine ⟨rfl, h, fun heq => ?_⟩
    have hip : (⟨10, 0, 0, 2⟩ : AddressV4) = ⟨10, 0, 0, 1⟩ := congrArg PeerKey.ip heq
    exact absurd hip (by decide)
  have hlength : others.length = 339 := by rw [hothers.length_eq, length_map, length_range]
  refine ⟨crowd 339, others, (others.take 338).map PeerKey.text, announced_crowd 339, hnodup,
    hlength, fun k hk => (hmem k).mp hk, ?_, ?_⟩
  · rw [clientPeers_respond (announced_crowd 339) rfl hnodup (fun k hk => ((hmem k).mp hk).1)
      hpeers,
      length_addrs, hlength]
    rfl
  · rw [length_map, length_take, hlength]
    rfl

end Tracker

end P2P
