import P2P.Native.DhtNode

/-!
# The queries of the DHT node

What the handlers of get_peers and announce_peer do.
-/

namespace P2P

open Assoc Option

/-! ## Computations that only read -/

section Reads

variable {σ α β : Type} {x : Throwing σ α} {o : Option α} {f : α → Throwing σ β}

/-- The computation leaves the state, and gives `o` or throws when that is nothing. -/
def Reads (x : Throwing σ α) (o : Option α) : Prop :=
  ∀ s, ∃ r, x.run.run s = (r, s) ∧ r.toOption = o

theorem Reads.pure (a : α) : Reads (Pure.pure a : Throwing σ α) (some a) :=
  fun _ => ⟨.ok a, rfl, rfl⟩

theorem Reads.throw (e : Fault) : Reads (MonadExcept.throw e : Throwing σ α) none :=
  fun _ => ⟨.error e, rfl, rfl⟩

theorem Reads.run_bind {a : α} (h : Reads x o) (ho : o = some a) (s : σ) :
    (x >>= f).run.run s = (f a).run.run s := by
  obtain ⟨r, hrun, hr⟩ := h s
  rw [ho] at hr
  cases r with
  | error e => exact nomatch hr
  | ok b =>
    cases hr
    rw [Throwing.run_bind, hrun]

theorem Reads.run_bind_none (h : Reads x o) (ho : o = none) (s : σ) :
    ∃ e, (x >>= f).run.run s = (.error e, s) := by
  obtain ⟨r, hrun, hr⟩ := h s
  rw [ho] at hr
  cases r with
  | error e =>
    rw [Throwing.run_bind, hrun]
    exact ⟨e, rfl⟩
  | ok b => exact nomatch hr

theorem Reads.bind {g : α → Option β} (h : Reads x o) (hf : ∀ a, Reads (f a) (g a)) :
    Reads (x >>= f) (o.bind g) := by
  intro s
  cases o with
  | none =>
    obtain ⟨e, he⟩ := h.run_bind_none rfl s
    exact ⟨.error e, he, rfl⟩
  | some a =>
    rw [h.run_bind rfl]
    exact hf a s

end Reads

namespace DhtNode

variable {σ : Type} {dataHash : Bytes → Bytes} {n : DhtNode} {args : Dict}
  {transactionId : Bytes} {remote : Endpoint}

/-! ## The fields of a query -/

def stringOf : Value → Option Bytes
  | .str b => some b
  | _ => none

def integerOf : Value → Option Int64
  | .int i => some i
  | _ => none

def idOf (b : Bytes) : Option NodeId := if h : b.length = 20 then some ⟨b, h⟩ else none

theorem reads_getString (v : Value) : Reads (getString v : Throwing σ Bytes) (stringOf v) := by
  cases v with
  | str b => exact .pure b
  | int _ | list _ | dict _ => exact .throw _

theorem reads_getInteger (v : Value) : Reads (getInteger v : Throwing σ Int64) (integerOf v) := by
  cases v with
  | int i => exact .pure i
  | str _ | list _ | dict _ => exact .throw _

theorem reads_fromString (b : Bytes) : Reads (fromString b : Throwing σ NodeId) (idOf b) := by
  unfold fromString idOf
  split
  · exact .pure _
  · exact .throw _

def portOf (args : Dict) (port : Int64) (remote : Endpoint) : Option UInt16 :=
  match find? args (.ascii "implied_port") with
  | none => some port.toUInt64.toUInt16
  | some v => (integerOf v).map fun impliedPort =>
      if impliedPort ≠ 0 then remote.port else port.toUInt64.toUInt16

theorem reads_announcedPort (args : Dict) (port : Int64) (remote : Endpoint) :
    Reads (announcedPort args port remote) (portOf args port remote) := by
  unfold announcedPort portOf
  cases find? args (.ascii "implied_port") with
  | none => exact .pure _
  | some v =>
    change Reads _ (Option.map _ _)
    rw [Option.map_eq_bind]
    exact (reads_getInteger v).bind fun _ => .pure _

structure Announce where
  senderId : NodeId
  infoHash : NodeId
  token : Bytes
  port : UInt16

def Announce.peer (a : Announce) (remote : Endpoint) : Endpoint := ⟨remote.address, a.port⟩

/-- The announce in the arguments of a query, if they all are there and have the right types. -/
def announceOf (args : Dict) (remote : Endpoint) : Option Announce :=
  (find? args (.ascii "id")).bind fun id =>
  (find? args (.ascii "info_hash")).bind fun hash =>
  (find? args (.ascii "port")).bind fun port =>
  (find? args (.ascii "token")).bind fun token =>
  ((stringOf hash).bind idOf).bind fun infoHash =>
  (stringOf token).bind fun receivedToken =>
  ((integerOf port).bind fun p => portOf args p remote).bind fun port =>
  ((stringOf id).bind idOf).map fun senderId => ⟨senderId, infoHash, receivedToken, port⟩

/-! ## Announces -/

theorem createErrorResponse_eq (code : Int64) (message : String) :
    createErrorResponse transactionId code message = .dict
      [(.ascii "e", .list [.int code, .str (.ascii message)]), (.ascii "t", .str transactionId),
        (.ascii "y", .str (.ascii "e"))] :=
  rfl

theorem krpcResponse_eq (r : Dict) :
    krpcResponse transactionId r = .dict
      [(.ascii "r", dictOf r), (.ascii "t", .str transactionId), (.ascii "y", .str (.ascii "r"))] :=
  rfl

theorem createErrorResponse_ne (code : Int64) (message : String) (transactionId' : Bytes)
    (id : NodeId) :
    createErrorResponse transactionId code message ≠
      createAnnouncePeerResponse transactionId' id := by
  intro h
  rw [createErrorResponse_eq, createAnnouncePeerResponse, createPingResponse, krpcResponse_eq] at h
  simp only [Value.dict.injEq, List.cons.injEq, Prod.mk.injEq] at h
  exact absurd h.1.1 (by decide)

theorem run_acceptAnnounce (infoHash : NodeId) (token : Bytes) (port : UInt16) :
    (acceptAnnounce dataHash infoHash token port transactionId remote).run.run n =
      if token ≠ generateToken dataHash remote n.now then
        (.ok (createErrorResponse transactionId 203 "Invalid or expired token"), n)
      else (.ok (createAnnouncePeerResponse transactionId n.myNodeId),
        n.storePeer infoHash ⟨remote.address, port⟩) := by
  unfold acceptAnnounce
  rw [Throwing.run_bind, Throwing.run_get]
  change (ite _ _ _ : Throwing DhtNode Value).run.run n = _
  rw [Throwing.run_ite]
  rfl

theorem run_onAnnouncePeerQuery {a : Announce} (h : announceOf args remote = some a) :
    (onAnnouncePeerQuery dataHash args transactionId remote).run.run n =
      (acceptAnnounce dataHash a.infoHash a.token a.port transactionId remote).run.run
        (n.seen a.senderId remote) := by
  simp only [announceOf, bind_eq_some_iff, map_eq_some_iff] at h
  obtain ⟨id, hid, hash, hhash, port, hport, token, htoken, infoHash, ⟨hashText, hhs, hhash'⟩,
    receivedToken, hts, port', ⟨p, hpi, hp⟩, senderId, ⟨idText, his, hid'⟩, rfl⟩ := h
  unfold onAnnouncePeerQuery
  simp only [hid, hhash, hport, htoken]
  -- one read after the other
  rw [(reads_getString hash).run_bind hhs, (reads_fromString hashText).run_bind hhash',
    (reads_getString token).run_bind hts, (reads_getInteger port).run_bind hpi,
    (reads_announcedPort args p remote).run_bind hp, (reads_getString id).run_bind his,
    (reads_fromString idText).run_bind hid', Throwing.run_bind, Throwing.run_modify]

theorem run_onAnnouncePeerQuery_of_none (dataHash : Bytes → Bytes) (n : DhtNode)
    (transactionId : Bytes) (h : announceOf args remote = none) :
    ∃ r, (onAnnouncePeerQuery dataHash args transactionId remote).run.run n = (r, n) ∧
      ∀ transactionId' id, r ≠ .ok (createAnnouncePeerResponse transactionId' id) := by
  -- a read that throws ends the query
  have hthrow : ∀ {α : Type} {x : Throwing DhtNode α} {o : Option α}
      {f : α → Throwing DhtNode Value}, Reads x o → o = none →
      ∃ r, (x >>= f).run.run n = (r, n) ∧
        ∀ transactionId' id, r ≠ .ok (createAnnouncePeerResponse transactionId' id) := by
    intro α x o f hx ho
    obtain ⟨e, he⟩ := hx.run_bind_none ho n
    exact ⟨_, he, nofun⟩
  unfold onAnnouncePeerQuery
  split
  · rename_i id hash port token hid hhash hport htoken
    simp only [announceOf, hid, hhash, hport, htoken, bind_some] at h
    cases hhs : stringOf hash with
    | none => exact hthrow (reads_getString hash) hhs
    | some hashText =>
    rw [(reads_getString hash).run_bind hhs]
    cases hhash' : idOf hashText with
    | none => exact hthrow (reads_fromString hashText) hhash'
    | some infoHash =>
    rw [(reads_fromString hashText).run_bind hhash']
    cases hts : stringOf token with
    | none => exact hthrow (reads_getString token) hts
    | some receivedToken =>
    rw [(reads_getString token).run_bind hts]
    cases hpi : integerOf port with
    | none => exact hthrow (reads_getInteger port) hpi
    | some p =>
    rw [(reads_getInteger port).run_bind hpi]
    cases hp : portOf args p remote with
    | none => exact hthrow (reads_announcedPort args p remote) hp
    | some port' =>
    rw [(reads_announcedPort args p remote).run_bind hp]
    cases his : stringOf id with
    | none => exact hthrow (reads_getString id) his
    | some idText =>
    rw [(reads_getString id).run_bind his]
    cases hid' : idOf idText with
    | none => exact hthrow (reads_fromString idText) hid'
    | some senderId =>
      simp only [hhs, hhash', hts, hpi, hp, his, hid', bind_some, map_some] at h
      exact nomatch h
  · refine ⟨_, rfl, fun transactionId' id heq => ?_⟩
    injection heq with heq
    exact createErrorResponse_ne _ _ _ _ heq

/-! ## What the queries leave alone -/

structure SameStore (n n' : DhtNode) : Prop where
  myNodeId : n'.myNodeId = n.myNodeId
  knownPeers : n'.knownPeers = n.knownPeers
  now : n'.now = n.now

theorem SameStore.refl (n : DhtNode) : SameStore n n := ⟨rfl, rfl, rfl⟩

theorem sameStore_seen (n : DhtNode) (senderId : NodeId) (remote : Endpoint) :
    SameStore n (n.seen senderId remote) := by
  unfold seen
  split
  · exact ⟨rfl, rfl, rfl⟩
  · exact .refl n

theorem SameStore.peersForHash {n' : DhtNode} (h : SameStore n n') (infoHash : NodeId) :
    n'.peersForHash infoHash = n.peersForHash infoHash := by
  unfold DhtNode.peersForHash stored
  rw [h.knownPeers, h.now]

theorem sameStore_seeSender (n : DhtNode) (args : Dict) (remote : Endpoint) :
    SameStore n ((seeSender args remote).run.run n).2 := by
  unfold seeSender
  split
  · exact .refl n
  · rename_i id _
    cases hs : stringOf id with
    | none =>
      obtain ⟨e, he⟩ := (reads_getString id).run_bind_none hs n
      rw [he]
      exact .refl n
    | some text =>
    rw [(reads_getString id).run_bind hs]
    cases hid : idOf text with
    | none =>
      obtain ⟨e, he⟩ := (reads_fromString text).run_bind_none hid n
      rw [he]
      exact .refl n
    | some senderId =>
      rw [(reads_fromString text).run_bind hid]
      exact sameStore_seen n senderId remote

/-! ## Queries for peers -/

theorem eq_str_of_stringOf {v : Value} {b : Bytes} (h : stringOf v = some b) : v = .str b := by
  cases v with
  | str c => rw [some.inj h]
  | int _ | list _ | dict _ => exact nomatch h

theorem val_of_idOf {b : Bytes} {id : NodeId} (h : idOf b = some id) : b = id.val := by
  unfold idOf at h
  split at h
  · rw [← some.inj h]
  · exact nomatch h

theorem run_onGetPeersQuery (dataHash : Bytes → Bytes) (n : DhtNode) (args : Dict)
    (transactionId : Bytes) (remote : Endpoint) :
    ∃ r n', (onGetPeersQuery dataHash args transactionId remote).run.run n = (r, n') ∧
      SameStore n n' ∧
      ((∃ e, r = .error e) ∨
      (find? args (.ascii "info_hash") = none ∧
        r = .ok (createErrorResponse transactionId 203 "Missing info_hash argument")) ∨
      ∃ infoHash : NodeId, find? args (.ascii "info_hash") = some (.str infoHash.val) ∧
        r = .ok (n'.getPeersResponse dataHash infoHash transactionId remote)) := by
  have hsame := sameStore_seeSender n args remote
  unfold onGetPeersQuery
  rw [Throwing.run_bind]
  cases hsee : (seeSender args remote).run.run n with
  | mk r n₁ =>
  rw [hsee] at hsame
  cases r with
  | error e => exact ⟨_, n₁, rfl, hsame, .inl ⟨e, rfl⟩⟩
  | ok u =>
  cases hhash : find? args (.ascii "info_hash") with
  | none => exact ⟨_, n₁, rfl, hsame, .inr (.inl ⟨rfl, rfl⟩)⟩
  | some hash =>
  cases hs : stringOf hash with
  | none =>
    obtain ⟨e, he⟩ := (reads_getString hash).run_bind_none hs n₁
    exact ⟨_, n₁, he, hsame, .inl ⟨e, rfl⟩⟩
  | some text =>
  cases hid : idOf text with
  | none =>
    obtain ⟨e, he⟩ := (reads_fromString text).run_bind_none hid n₁
    exact ⟨_, n₁, ((reads_getString hash).run_bind hs n₁).trans he, hsame, .inl ⟨e, rfl⟩⟩
  | some infoHash =>
    have hval : hash = .str infoHash.val := by rw [eq_str_of_stringOf hs, val_of_idOf hid]
    refine ⟨_, n₁, ?_, hsame, .inr (.inr ⟨infoHash, congrArg some hval, rfl⟩)⟩
    exact ((reads_getString hash).run_bind hs n₁).trans ((reads_fromString text).run_bind hid n₁)

def SenderReadable (args : Dict) : Prop :=
  ∀ v, find? args (.ascii "id") = some v → ∃ id : NodeId, v = .str id.val

theorem idOf_val (id : NodeId) : idOf id.val = some id := dif_pos id.property

theorem run_onGetPeersQuery_of_readable (dataHash : Bytes → Bytes) (n : DhtNode)
    (transactionId : Bytes) (remote : Endpoint) (hsender : SenderReadable args) {infoHash : NodeId}
    (hhash : find? args (.ascii "info_hash") = some (.str infoHash.val)) :
    ∃ n', (onGetPeersQuery dataHash args transactionId remote).run.run n =
        (.ok (n'.getPeersResponse dataHash infoHash transactionId remote), n') ∧
      SameStore n n' := by
  have hsame := sameStore_seeSender n args remote
  have hsee : ((seeSender args remote).run.run n).1 = .ok () := by
    unfold seeSender
    split
    · rfl
    · rename_i v hv
      obtain ⟨id, rfl⟩ := hsender v hv
      rw [(reads_getString (.str id.val)).run_bind rfl,
        (reads_fromString id.val).run_bind (idOf_val id)]
      rfl
  refine ⟨((seeSender args remote).run.run n).2, ?_, hsame⟩
  unfold onGetPeersQuery
  rw [Throwing.run_bind, ← Prod.mk.eta (p := (seeSender args remote).run.run n), hsee]
  simp only [hhash]
  rw [(reads_getString (.str infoHash.val)).run_bind rfl,
    (reads_fromString infoHash.val).run_bind (idOf_val infoHash)]
  rfl

def replyField (v : Value) (key : String) : Option Value :=
  match v with
  | .dict d =>
    match find? d (.ascii "r") with
    | some (.dict r) => find? r (.ascii key)
    | _ => none
  | _ => none

def replyToken (v : Value) : Option Bytes := (replyField v "token").bind stringOf

def replyValues (v : Value) : List Value :=
  match replyField v "values" with
  | some (.list l) => l
  | _ => []

theorem replyToken_createErrorResponse (code : Int64) (message : String) :
    replyToken (createErrorResponse transactionId code message) = none := by
  rw [createErrorResponse_eq]
  rfl

theorem replyToken_getPeersResponse (dataHash : Bytes → Bytes) (n : DhtNode) (infoHash : NodeId)
    (transactionId : Bytes) (remote : Endpoint) :
    replyToken (n.getPeersResponse dataHash infoHash transactionId remote) =
      some (generateToken dataHash remote n.now) := by
  unfold getPeersResponse
  dsimp only
  split
  · rfl
  · rfl

theorem replyValues_getPeersResponse (infoHash : NodeId) :
    replyValues (n.getPeersResponse dataHash infoHash transactionId remote) =
      toCompactPeerList (n.peersForHash infoHash) := by
  unfold getPeersResponse
  dsimp only
  split
  · rename_i hempty
    rw [List.isEmpty_iff.mp hempty]
    rfl
  · rfl

end DhtNode

end P2P
