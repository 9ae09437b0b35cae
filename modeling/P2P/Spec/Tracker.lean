import Mathlib.Data.List.Nodup
import P2P.Native.Tracker
import P2P.Spec.Handshake

/-!
# The registry of the tracker

Seen from outside, the tracker keeps for each info hash, address and port what was last announced,
and when.
-/

namespace P2P

open Function Prod

/-! ## Compact addresses -/

theorem toBe16_fromBe16 (a b : UInt8) : toBe16 (fromBe16 [a, b]) = [a, b] := by
  have hhi : (((a.toUInt16 <<< 8) ||| b.toUInt16) >>> 8).toUInt8 = a := by
    apply UInt8.eq_of_toBitVec_eq
    simp only [UInt16.toBitVec_toUInt8, UInt16.toBitVec_shiftRight, UInt16.toBitVec_or,
      UInt16.toBitVec_shiftLeft, UInt8.toBitVec_toUInt16]
    ext i hi
    have h1 : 8 + i < 16 := by omega
    have h2 : i < 16 := by omega
    simp [h1, h2, BitVec.getLsbD_eq_getElem hi]
  have hlo : ((a.toUInt16 <<< 8) ||| b.toUInt16).toUInt8 = b := by
    apply UInt8.eq_of_toBitVec_eq
    simp
  simp [toBe16, fromBe16, hhi, hlo]

namespace Tracker

structure PeerKey where
  infoHash : Bytes
  ip : AddressV4
  port : UInt16
  deriving DecidableEq, Repr

namespace PeerKey

def addr (k : PeerKey) : CompactAddr := compactPeerAddr k.ip k.port

def ofAddr (infoHash : Bytes) (b : CompactAddr) : PeerKey where
  infoHash := infoHash
  ip := ⟨b.val.getD 0 0, b.val.getD 1 0, b.val.getD 2 0, b.val.getD 3 0⟩
  port := fromBe16 (b.val.drop 4)

theorem addr_ofAddr (infoHash : Bytes) (b : CompactAddr) : (ofAddr infoHash b).addr = b := by
  obtain ⟨b, hb⟩ := b
  match b, hb with
  | [b0, b1, b2, b3, b4, b5], _ =>
    apply Subtype.ext
    change [b0, b1, b2, b3] ++ toBe16 (fromBe16 [b4, b5]) = _
    rw [toBe16_fromBe16]
    rfl

theorem ofAddr_addr (k : PeerKey) : ofAddr k.infoHash k.addr = k := by
  have hport : fromBe16 (toBe16 k.port) = k.port := fromBe16_toBe16 k.port
  change PeerKey.mk k.infoHash k.ip (fromBe16 (toBe16 k.port)) = k
  rw [hport]

theorem ofAddr_eq_iff {k : PeerKey} {b : CompactAddr} : ofAddr k.infoHash b = k ↔ b = k.addr := by
  constructor
  · intro h
    rw [← h, addr_ofAddr]
  · intro h
    rw [h, ofAddr_addr]

theorem addr_eq_iff {k k' : PeerKey} (h : k.infoHash = k'.infoHash) :
    k.addr = k'.addr ↔ k = k' := by
  constructor
  · intro haddr
    rw [← ofAddr_addr k, ← ofAddr_addr k', h, haddr]
  · intro heq
    rw [heq]

end PeerKey

def addrs (keys : List PeerKey) : Bytes := keys.flatMap fun k => k.addr.val

theorem length_addrs (keys : List PeerKey) : (addrs keys).length = 6 * keys.length := by
  induction keys with
  | nil => rfl
  | cons k keys ih =>
    have hk : k.addr.val.length = 6 := k.addr.property
    rw [addrs, List.flatMap_cons, List.length_append, hk, ← addrs, ih, List.length_cons]
    omega

/-! ## The registry -/

abbrev Registry := PeerKey → Option PeerEntry

structure Announce where
  key : PeerKey
  left : Int64
  stopped : Bool
  deriving DecidableEq, Repr

inductive RegistryEvent where
  | announce (a : Announce) (time : Int)
  | cleanup (time interval : Int)

namespace Registry

/-- An announce is remembered with its time, `stopped` takes the peer out, and a cleanup what is
    more than two intervals old. -/
def apply (r : Registry) : RegistryEvent → Registry
  | .announce a time =>
    update r a.key (if a.stopped then none else some ⟨a.left, time⟩)
  | .cleanup time interval => fun k =>
    (r k).filter fun e => time - e.lastAnnounce ≤ 2 * (interval * 1000000000)

def run (events : List RegistryEvent) (r : Registry) : Registry := events.foldl apply r

/-- A reply describes a registry to `self`: of the entries for its info hash, each taken once, it
    counts those with nothing left and the others, as far as an `int` can, and has the addresses of
    all but `self`. -/
def Describes (r : Registry) (self : PeerKey) (entries : List (PeerKey × PeerEntry))
    (reply : AnnounceReply) : Prop :=
  (entries.map fst).Nodup ∧
  (∀ k e, (k, e) ∈ entries ↔ k.infoHash = self.infoHash ∧ r k = some e) ∧
  (entries.countP (fun p => p.2.left = 0) < 2 ^ 31 →
    reply.complete.toInt = entries.countP fun p => p.2.left = 0) ∧
  (entries.countP (fun p => p.2.left ≠ 0) < 2 ^ 31 →
    reply.incomplete.toInt = entries.countP fun p => p.2.left ≠ 0) ∧
  reply.peers = addrs ((entries.map fst).filter (· ≠ self))

end Registry

variable (t : Tracker)

def registry : Registry := fun k => t.peers.find? k.infoHash k.addr

def announced : Step → Option Announce
  | .http ip target =>
    if routed target then
      match announceParams target with
      | .error _ => none
      | .ok p => some ⟨⟨p.infoHash, ip, p.port⟩, p.left, p.event == .ascii "stopped"⟩
    else none
  | .udp ip port request _ =>
    if udpAction request = 1 then
      (t.udpAccept (compactPeerAddr ip port) request).map fun req =>
        ⟨⟨req.infoHash, ip, req.port⟩, req.left.toInt64, req.event == 3⟩
    else none
  | _ => none

def event : Step → Option RegistryEvent
  | .cleanup => some (.cleanup t.now t.interval.toInt)
  | e => (t.announced e).map (.announce · t.now)

def events : List Step → Tracker → List RegistryEvent
  | [], _ => []
  | e :: es, t => (t.event e).toList ++ events es (t.handle e).2

def registryOf (interval : Int32) (now : Int) (es : List Step) : Registry :=
  Registry.run (events es { interval := interval, now := now }) fun _ => none

def render (reply : AnnounceReply) : Step → Response
  | .udp _ _ request _ => .udp (udpAnnounceResponse
      (UdpAnnounceRequest.ofBytes request).transactionId t.interval reply)
  | _ => .http ⟨200, announceBody t.interval reply⟩

def Step.isUdp : Step → Bool
  | .udp .. => true
  | _ => false

def Response.sent : Response → Option Response
  | .udp datagram => (sendTo datagram).map .udp
  | response => some response

variable {t}

/-! ## What a step does -/

theorem registry_update {t' : Tracker} {k : PeerKey} {o : Option PeerEntry}
    (hself : t'.peers.find? k.infoHash k.addr = o)
    (hother : ∀ infoHash b, ¬ (infoHash = k.infoHash ∧ b = k.addr) →
      t'.peers.find? infoHash b = t.peers.find? infoHash b) :
    t'.registry = update t.registry k o := by
  funext k'
  rw [update_apply]
  split
  · next heq => rw [heq, registry, hself]
  · next hne =>
    apply hother
    intro ⟨hhash, haddr⟩
    exact hne ((PeerKey.addr_eq_iff hhash).mp haddr)

theorem registry_register (k : PeerKey) (left : Int64) :
    (t.register k.infoHash k.addr left).registry =
      update t.registry k (some ⟨left, t.now⟩) := by
  apply registry_update
  · exact (NestedMap.find?_put ..).trans (if_pos ⟨rfl, rfl⟩)
  · intro infoHash b hne
    exact (NestedMap.find?_put ..).trans (if_neg hne)

theorem registry_remove (k : PeerKey) :
    ({ t with peers := t.peers.remove k.infoHash k.addr } : Tracker).registry =
      update t.registry k none := by
  apply registry_update
  · exact (NestedMap.find?_remove ..).trans (if_pos ⟨rfl, rfl⟩)
  · intro infoHash b hne
    exact (NestedMap.find?_remove ..).trans (if_neg hne)

theorem registry_cleanup (hlow : -2 ^ 30 ≤ t.interval.toInt) (hhigh : t.interval.toInt < 2 ^ 30) :
    t.cleanup.registry = t.registry.apply (.cleanup t.now t.interval.toInt) := by
  have htwo : (2 : Int32).toInt = 2 := rfl
  have htwice : (t.interval * 2).toInt = t.interval.toInt * 2 := by
    rw [Int32.toInt_mul, htwo, Int.bmod_eq_of_le (by omega) (by omega)]
  funext k
  change (t.peers.prune _).find? k.infoHash k.addr = _
  rw [NestedMap.find?_prune]
  change (t.registry k).filter _ = (t.registry k).filter _
  congr 1
  funext e
  rw [← decide_not, htwice]
  congr 1
  exact propext (by omega)

theorem udpAccept_eq_some {endpoint : CompactAddr} {request : Bytes} {req : UdpAnnounceRequest}
    (h : t.udpAccept endpoint request = some req) :
    98 ≤ request.length ∧ req = .ofBytes request := by
  unfold udpAccept at h
  split at h
  · exact nomatch h
  · rename_i hlen
    dsimp only at h
    split at h
    · exact ⟨by omega, (Option.some.inj h).symm⟩
    · exact nomatch h

variable {e : Step} {a : Announce}

theorem handle_announce (h : t.announced e = some a) (hstopped : a.stopped = false) :
    t.handle e =
      ((t.render (collectPeers ((t.register a.key.infoHash a.key.addr a.left).peers.row
        a.key.infoHash) a.key.addr) e).sent, t.register a.key.infoHash a.key.addr a.left) := by
  cases e with simp only [announced] at h
  | http ip target =>
    split at h
    · next hrouted =>
      split at h
      · cases h
      · next p hp =>
        cases h
        have hevent : ¬ p.event = .ascii "stopped" := by simpa using hstopped
        simp only [handle, handleRequest, hrouted, if_true, handleAnnounce, hp, hevent, if_false]
        rfl
    · cases h
  | udp ip port request connectionId =>
    split at h
    · next haction =>
      obtain ⟨req, hreq, rfl⟩ := Option.map_eq_some_iff.mp h
      have hlen := udpAccept_eq_some hreq
      have h16 : ¬ request.length < 16 := by omega
      have h0 : ¬ (1 : UInt32) = 0 := by decide
      simp only [handle, handleUdpRequest, h16, if_false, haction, h0, if_true, hreq, udpAnnounce,
        render, hlen.2]
      rfl
    · cases h
  | cleanup => cases h
  | wait time => cases h

theorem handle_stopped {ip : AddressV4} {target : Bytes}
    (h : t.announced (.http ip target) = some a) (hstopped : a.stopped = true) :
    (t.handle (.http ip target)).2 =
      { t with peers := t.peers.remove a.key.infoHash a.key.addr } := by
  simp only [announced] at h
  split at h
  · next hrouted =>
    split at h
    · cases h
    · next p hp =>
      cases h
      have hevent : p.event = .ascii "stopped" := by simpa using hstopped
      simp only [handle, handleRequest, hrouted, if_true, handleAnnounce, hp, hevent]
      rfl
  · cases h

theorem peers_handle_of_not_announced (h : t.event e = none) : (t.handle e).2.peers = t.peers := by
  cases e with simp only [event, Option.map_eq_none_iff, announced] at h
  | http ip target =>
    simp only [handle, handleRequest]
    split
    · next hrouted =>
      rw [if_pos hrouted] at h
      split at h
      · next hp => rw [handleAnnounce, hp]
      · cases h
    · rfl
  | udp ip port request connectionId =>
    simp only [handle, handleUdpRequest]
    split
    · rfl
    · split
      · rfl
      · split
        · next haction =>
          rw [if_pos haction, Option.map_eq_none_iff] at h
          rw [h]
        · rfl
  | cleanup => cases h
  | wait time => rfl

/-- No announce over UDP says that its peer stops, and a cleanup can double the interval. -/
def Heeded (t : Tracker) : Step → Prop
  | .udp ip port request connectionId =>
    (t.announced (.udp ip port request connectionId)).all (fun a => !a.stopped) = true
  | .cleanup => -2 ^ 30 ≤ t.interval.toInt ∧ t.interval.toInt < 2 ^ 30
  | _ => True

instance instDecidableHeeded (t : Tracker) : (e : Step) → Decidable (Heeded t e) := by
  intro st
  unfold Heeded
  split <;> infer_instance

theorem event_of_announced (h : t.announced e = some a) : t.event e = some (.announce a t.now) := by
  cases e with
  | http ip target => simp [event, h]
  | udp ip port request connectionId => simp [event, h]
  | cleanup => cases h
  | wait time => cases h

theorem registry_handle (hok : Heeded t e) :
    (t.handle e).2.registry = Registry.run (t.event e).toList t.registry := by
  have hkept : t.event e = none →
      (t.handle e).2.registry = Registry.run (t.event e).toList t.registry := by
    intro hnone
    funext k
    rw [hnone, registry, peers_handle_of_not_announced hnone]
    rfl
  cases ha : t.announced e with
  | none =>
    cases e with
    | http | udp => exact hkept (by simp [event, ha])
    | cleanup => exact registry_cleanup hok.1 hok.2
    | wait time => rfl
  | some a =>
    rw [event_of_announced ha]
    change _ = t.registry.apply (.announce a t.now)
    cases hstopped : a.stopped with
    | false =>
      rw [handle_announce ha hstopped, Registry.apply, hstopped]
      exact registry_register a.key a.left
    | true =>
      -- over UDP the event would not have been heeded
      cases e with
      | http ip target =>
        rw [handle_stopped ha hstopped, Registry.apply, hstopped]
        exact registry_remove a.key
      | udp ip port request connectionId =>
        rw [Heeded, ha] at hok
        simp [hstopped] at hok
      | cleanup => cases ha
      | wait time => cases ha

/-! ## Runs -/

theorem registry_run {es : List Step} {t t' : Tracker} (hrun : runSteps step es t = some t')
    (hok : StepsMeet step Heeded es t) : t'.registry = Registry.run (events es t) t.registry := by
  induction es generalizing t with
  | nil =>
    cases hrun
    rfl
  | cons e es ih =>
    have hstep : step t e = some (t.handle e).2 := rfl
    rw [runSteps, hstep, Option.bind_some] at hrun
    rw [ih hrun (hok.2 _ hstep), registry_handle hok.1, events, Registry.run, Registry.run,
      Registry.run, List.foldl_append]

/-! ## Replies -/

theorem foldl_collectPeer (self : CompactAddr) (l : List (CompactAddr × PeerEntry))
    (r : AnnounceReply) :
    l.foldl (collectPeer self) r =
      { complete := r.complete + .ofNat (l.countP fun e => e.2.left = 0)
        incomplete := r.incomplete + .ofNat (l.countP fun e => e.2.left ≠ 0)
        peers := r.peers ++ ((l.map fst).filter (· ≠ self)).flatMap Subtype.val } := by
  induction l generalizing r with
  | nil => simp
  | cons e l ih =>
    rw [List.foldl_cons, ih]
    have hone (c : Int32) (n : Nat) : c + 1 + .ofNat n = c + .ofNat (n + 1) := by
      rw [Nat.add_comm, Int32.ofNat_add, Int32.add_assoc]
      rfl
    by_cases hleft : e.2.left = 0 <;> by_cases hself : e.1 = self <;>
      simp [collectPeer, hleft, hself, hone]

def entriesOf (t : Tracker) (infoHash : Bytes) : List (PeerKey × PeerEntry) :=
  (t.peers.row infoHash).entries.map fun e => (PeerKey.ofAddr infoHash e.1, e.2)

theorem keys_entriesOf (infoHash : Bytes) :
    (t.entriesOf infoHash).map fst =
      ((t.peers.row infoHash).entries.map fst).map (PeerKey.ofAddr infoHash) := by
  simp [entriesOf]

theorem nodup_entriesOf (infoHash : Bytes) : ((t.entriesOf infoHash).map fst).Nodup := by
  have hinj : Function.Injective (PeerKey.ofAddr infoHash) := by
    intro b b' h
    rw [← PeerKey.addr_ofAddr infoHash b, h, PeerKey.addr_ofAddr]
  rw [keys_entriesOf]
  exact List.Nodup.map hinj (OrdMap.nodup_keys _)

theorem mem_entriesOf {infoHash : Bytes} {k : PeerKey} {e : PeerEntry} :
    (k, e) ∈ t.entriesOf infoHash ↔ k.infoHash = infoHash ∧ t.registry k = some e := by
  simp only [entriesOf, List.mem_map, Prod.mk.injEq, Prod.exists]
  constructor
  · rintro ⟨b, e', hmem, rfl, rfl⟩
    rw [registry, PeerKey.addr_ofAddr]
    exact ⟨rfl, NestedMap.mem_row.mp hmem⟩
  · rintro ⟨rfl, hfind⟩
    exact ⟨k.addr, e, NestedMap.mem_row.mpr hfind, PeerKey.ofAddr_addr k, rfl⟩

theorem describes_collectPeers (k : PeerKey) :
    Registry.Describes t.registry k (t.entriesOf k.infoHash)
      (collectPeers (t.peers.row k.infoHash) k.addr) := by
  have hloop : collectPeers (t.peers.row k.infoHash) k.addr = _ := foldl_collectPeer ..
  have hothers : ((t.entriesOf k.infoHash).map fst).filter (· ≠ k) =
      (((t.peers.row k.infoHash).entries.map fst).filter (· ≠ k.addr)).map
        (PeerKey.ofAddr k.infoHash) := by
    rw [keys_entriesOf, List.filter_map]
    congr 2
    funext b
    simp [PeerKey.ofAddr_eq_iff]
  refine ⟨nodup_entriesOf _, fun _ _ => mem_entriesOf, fun hfits => ?_, fun hfits => ?_, ?_⟩
  · rw [hloop, ← Int32.toInt_ofNat_of_lt hfits, entriesOf, List.countP_map]
    exact congrArg Int32.toInt (Int32.zero_add _)
  · rw [hloop, ← Int32.toInt_ofNat_of_lt hfits, entriesOf, List.countP_map]
    exact congrArg Int32.toInt (Int32.zero_add _)
  · rw [hloop, hothers, addrs, List.flatMap_map]
    simp only [PeerKey.addr_ofAddr]
    rfl

/-- The announcer is registered, so that the others are one less. -/
theorem length_describes {r : Registry} {k : PeerKey} {entries : List (PeerKey × PeerEntry)}
    {reply : AnnounceReply} (h : r.Describes k entries reply) (hself : (r k).isSome) :
    reply.peers.length + 6 = 6 * entries.length := by
  obtain ⟨hnodup, hmem, -, -, hpeers⟩ := h
  obtain ⟨e, he⟩ := Option.isSome_iff_exists.mp hself
  have hin : k ∈ entries.map fst := List.mem_map_of_mem ((hmem k e).mpr ⟨rfl, he⟩)
  have hlength := List.length_erase_of_mem hin
  have hpos := List.length_pos_of_mem hin
  rw [hnodup.erase_eq_filter, List.length_map] at hlength
  rw [List.length_map] at hpos
  have hne : (fun x : PeerKey => decide (x ≠ k)) = (· != k) := by
    funext x
    simp [bne, beq_eq_decide]
  rw [hpeers, length_addrs, hne]
  omega

theorem sent_render (t : Tracker) (reply : AnnounceReply) (e : Step) :
    (t.render reply e).sent =
      if e.isUdp → reply.peers.length ≤ 65487 then some (t.render reply e) else none := by
  cases e with
  | udp ip port request connectionId =>
    have hlength (transactionId : UInt32) :
        (udpAnnounceResponse transactionId t.interval reply).length ≤ 65507 ↔
          reply.peers.length ≤ 65487 := by
      simp only [udpAnnounceResponse, List.length_append, length_toBe32]
      omega
    simp only [render, Response.sent, sendTo, hlength, Step.isUdp, forall_const]
    split <;> rfl
  | http | cleanup | wait => rfl

/-- In every run in which no announce over UDP says `stopped` and twice the interval is an `int`,
    `peers_` is the registry: what each peer announced last, without those that stopped or are too
    old. Both transports give one reply to an announce; over UDP it is sent exactly when the
    datagram can carry it. -/
theorem registry_refines {interval : Int32} {now : Int} {es : List Step} {t : Tracker}
    (hrun : runSteps step es { interval := interval, now := now } = some t)
    (hok : StepsMeet step Heeded es { interval := interval, now := now }) :
    (∀ infoHash b,
      t.peers.find? infoHash b = registryOf interval now es (PeerKey.ofAddr infoHash b)) ∧
    ∀ a : Announce, a.stopped = false →
      ∃ (t' : Tracker) (entries : List (PeerKey × PeerEntry)) (reply : AnnounceReply),
      Registry.Describes ((registryOf interval now es).apply (.announce a t.now)) a.key entries
        reply ∧
      ∀ e, t.announced e = some a → step t e = some t' ∧
        (t.respond e = some (t.render reply e) ↔ (e.isUdp → entries.length ≤ 10915)) := by
  have hregistry : t.registry = registryOf interval now es := registry_run hrun hok
  rw [← hregistry]
  constructor
  · intro infoHash b
    rw [registry, PeerKey.addr_ofAddr]
    rfl
  · intro a hstopped
    obtain ⟨t', ht'⟩ : ∃ t', t.register a.key.infoHash a.key.addr a.left = t' := ⟨_, rfl⟩
    have hregistry : t'.registry = t.registry.apply (.announce a t.now) := by
      rw [Registry.apply, hstopped, ← ht']
      exact registry_register a.key a.left
    have hdescribes := describes_collectPeers (t := t') a.key
    have hlength := length_describes hdescribes (by rw [hregistry]; simp [Registry.apply, hstopped])
    rw [hregistry] at hdescribes
    refine ⟨t', _, _, hdescribes, fun e he => ?_⟩
    have h := handle_announce he hstopped
    rw [step, respond, h, ht']
    dsimp only
    rw [sent_render, ite_eq_left_iff]
    refine ⟨rfl, ?_⟩
    simp only [reduceCtorEq, imp_false, not_not]
    exact forall_congr' fun _ => by omega

def overHttp : Step :=
  .http ⟨10, 0, 0, 1⟩ (.ascii "/announce?info_hash=aaaaaaaaaaaaaaaaaaaa&port=81&left=5")

def udpHello : Step :=
  .udp ⟨10, 0, 0, 1⟩ 6969 (toBe64 0x41727101980 ++ toBe32 0 ++ toBe32 9) 7

def overUdp (event : UInt32) : Step :=
  .udp ⟨10, 0, 0, 1⟩ 6969
    (toBe64 7 ++ toBe32 1 ++ toBe32 9 ++ List.replicate 20 97 ++ List.replicate 20 98 ++
      toBe64 0 ++ toBe64 5 ++ toBe64 0 ++ toBe32 event ++ toBe32 0 ++ toBe32 0 ++
      toBe32 0xffffffff ++ toBe16 81) 0

def sameAnnounce : Announce := ⟨⟨List.replicate 20 97, ⟨10, 0, 0, 1⟩, 81⟩, 5, false⟩

theorem registry_refines_both :
    ∃ (t t' : Tracker) (entries : List (PeerKey × PeerEntry)) (reply : AnnounceReply),
    runSteps step [udpHello, overHttp, .wait 3, .cleanup] { now := 0 } = some t ∧
    Registry.Describes
      ((registryOf 1800 0 [udpHello, overHttp, .wait 3, .cleanup]).apply
        (.announce sameAnnounce t.now)) sameAnnounce.key entries reply ∧
    step t overHttp = some t' ∧ step t (overUdp 0) = some t' ∧
    t.respond overHttp = some (t.render reply overHttp) ∧
    (t.respond (overUdp 0) = some (t.render reply (overUdp 0)) ↔ entries.length ≤ 10915) := by
  have hrun : runSteps step [udpHello, overHttp, .wait 3, .cleanup] { now := 0 } = some _ := rfl
  obtain ⟨-, h⟩ := registry_refines hrun (by decide +kernel)
  obtain ⟨t', entries, reply, hdescribes, hsame⟩ := h sameAnnounce rfl
  have hhttp := hsame overHttp (by decide +kernel)
  have hudp := hsame (overUdp 0) (by decide +kernel)
  exact ⟨_, t', entries, reply, hrun, hdescribes, hhttp.1, hudp.1, hhttp.2.mpr nofun,
    hudp.2.trans (forall_prop_of_true rfl)⟩

def leaveHttp : Step :=
  .http ⟨10, 0, 0, 2⟩
    (.ascii "/announce?info_hash=aaaaaaaaaaaaaaaaaaaa&port=82&left=5&event=stopped")

/-- A peer that says `stopped` over UDP is still registered, and the reply to one over HTTP has no
    peer, although one is registered. -/
theorem registry_refines_stopped :
    (∃ t, runSteps step [udpHello, overHttp, overUdp 3] { now := 0 } = some t ∧
      t.registry sameAnnounce.key = some ⟨5, 0⟩ ∧
      registryOf 1800 0 [udpHello, overHttp, overUdp 3] sameAnnounce.key = none) ∧
    ∃ t, runSteps step [overHttp] { now := 0 } = some t ∧
      t.respond leaveHttp = some (t.render {} leaveHttp) ∧
      (t.handle leaveHttp).2.registry sameAnnounce.key = some ⟨5, 0⟩ := by
  constructor
  · have hrun : runSteps step [udpHello, overHttp, overUdp 3] { now := 0 } = some _ := rfl
    exact ⟨_, hrun, by decide +kernel, by decide +kernel⟩
  · have hrun : runSteps step [overHttp] { now := 0 } = some _ := rfl
    exact ⟨_, hrun, by decide +kernel, by decide +kernel⟩

end Tracker

end P2P
