import P2P.Spec.DhtNode

/-!
# The tokens of the DHT node

A token is a hash of an address and of the number of the ten minutes, and it is checked by making it
again.
-/

namespace P2P

open List Decimal

theorem tokenInput_inj {remote remote' : Endpoint} {t t' : Int}
    (h : tokenInput remote t = tokenInput remote' t') :
    remote.address = remote'.address ∧ timeWindow t = timeWindow t' := by
  have hdot : isDigit 46 = false := by decide
  have hsecret : isDigit 68 = false := by decide
  unfold tokenInput AddressV4.text at h
  simp only [append_assoc] at h
  -- the numbers end at a dot, and the last one at the first letter of the secret
  obtain ⟨h0, h⟩ := printNat_append_inj hdot h
  obtain ⟨h1, h⟩ := printNat_append_inj hdot h
  obtain ⟨h2, h⟩ := printNat_append_inj hdot h
  obtain ⟨h3, h⟩ := printNat_append_inj hsecret h
  have hwindow := printNat_injective (append_cancel_left h)
  constructor
  · cases ha : remote.address
    cases ha' : remote'.address
    simp only [ha, ha'] at h0 h1 h2 h3
    simp only [AddressV4.mk.injEq]
    exact ⟨UInt8.toNat_inj.mp h0, UInt8.toNat_inj.mp h1, UInt8.toNat_inj.mp h2,
      UInt8.toNat_inj.mp h3⟩
  · exact UInt64.toNat_inj.mp hwindow

/-- The number of a window, before it is converted. -/
def windowNumber (t : Int) : Int := (t.tdiv (minutes 1)).tdiv announceTokenLifetime

theorem windowNumber_bounds (t : Int) :
    -(600 * 10 ^ 9) < t - 600 * 10 ^ 9 * windowNumber t ∧
      t - 600 * 10 ^ 9 * windowNumber t < 600 * 10 ^ 9 := by
  have hminute : (0 : Int) < minutes 1 := by decide
  have hten : (0 : Int) < announceTokenLifetime := by decide
  have h1 := Int.mul_tdiv_add_tmod t (minutes 1)
  have h2 := Int.mul_tdiv_add_tmod (t.tdiv (minutes 1)) announceTokenLifetime
  have h3 := Int.tmod_lt_of_pos t hminute
  have h4 := Int.lt_tmod_of_pos t hminute
  have h5 := Int.tmod_lt_of_pos (t.tdiv (minutes 1)) hten
  have h6 := Int.lt_tmod_of_pos (t.tdiv (minutes 1)) hten
  unfold windowNumber
  simp only [minutes, announceTokenLifetime] at *
  omega

theorem toNat_ofInt (x : Int) : ((UInt64.ofInt x).toNat : Int) = x % 2 ^ 64 := by
  unfold UInt64.ofInt
  rw [UInt64.toNat_ofNat']
  omega

theorem timeWindow_ne {t t' : Int64} (h : t.toInt + 2 * minutes announceTokenLifetime ≤ t'.toInt) :
    timeWindow t.toInt ≠ timeWindow t'.toInt := by
  intro heq
  have hmod : windowNumber t.toInt % 2 ^ 64 = windowNumber t'.toInt % 2 ^ 64 := by
    rw [← toNat_ofInt, ← toNat_ofInt]
    exact congrArg (fun w : UInt64 => (w.toNat : Int)) heq
  have hb := windowNumber_bounds t.toInt
  have hb' := windowNumber_bounds t'.toInt
  have hlo := t.le_toInt
  have hhi' := t'.toInt_lt
  simp only [minutes, announceTokenLifetime] at h
  omega

namespace DhtNode

variable {dataHash : Bytes → Bytes} {n m : DhtNode} {args args' : Dict}
  {transactionId transactionId' : Bytes} {remote remote' : Endpoint}

theorem token_of_reply {v : Value} {token : Bytes}
    (hreply : ((onGetPeersQuery dataHash args transactionId remote).run.run n).1 = .ok v)
    (htoken : replyToken v = some token) : token = generateToken dataHash remote n.now := by
  obtain ⟨r, n', hrun, hsame, hr⟩ := run_onGetPeersQuery dataHash n args transactionId remote
  rw [hrun] at hreply
  subst hreply
  rcases hr with ⟨e, he⟩ | ⟨-, herror⟩ | ⟨infoHash, -, hok⟩
  · cases he
  · cases herror
    rw [replyToken_createErrorResponse] at htoken
    cases htoken
  · cases hok
    rw [replyToken_getPeersResponse, hsame.now] at htoken
    exact (Option.some.inj htoken).symm

theorem reply_of_announce {a : Announce} (ha : announceOf args remote = some a) :
    ((onAnnouncePeerQuery dataHash args transactionId remote).run.run n).1 =
      .ok (if a.token = generateToken dataHash remote n.now then
        createAnnouncePeerResponse transactionId n.myNodeId
      else createErrorResponse transactionId 203 "Invalid or expired token") := by
  have hsame := sameStore_seen n a.senderId remote
  rw [run_onAnnouncePeerQuery ha, run_acceptAnnounce, hsame.now, hsame.myNodeId]
  by_cases h : a.token = generateToken dataHash remote n.now
  · rw [if_neg (not_not.mpr h), if_pos h]
  · rw [if_pos h, if_neg h]

theorem accepted_ne_refused (transactionId : Bytes) (id : NodeId) :
    createAnnouncePeerResponse transactionId id ≠
      createErrorResponse transactionId 203 "Invalid or expired token" := by
  intro h
  cases h

/-- **Tokens.** The token that an address has got is accepted from it in the same window. Where the
    hash does not collide it is refused in any other window and from any other address, so that it
    lives as long as it should exactly when the two times share a window. -/
theorem announce_token_window (n m : DhtNode) (transactionId' : Bytes) {t t' : Int64}
    (hn : n.now = t.toInt) (hm : m.now = t'.toInt) {v : Value} {token : Bytes}
    (hreply : ((onGetPeersQuery dataHash args transactionId remote).run.run n).1 = .ok v)
    (htoken : replyToken v = some token) {a : Announce} (ha : announceOf args' remote' = some a)
    (hat : a.token = token) :
    (remote'.address = remote.address → timeWindow t'.toInt = timeWindow t.toInt →
      ((onAnnouncePeerQuery dataHash args' transactionId' remote').run.run m).1 =
        .ok (createAnnouncePeerResponse transactionId' m.myNodeId)) ∧
    (Set.InjOn (shortHash dataHash) {tokenInput remote t.toInt, tokenInput remote' t'.toInt} →
      (((remote'.address = remote.address → t.toInt ≤ t'.toInt →
            t'.toInt < t.toInt + minutes announceTokenLifetime →
          ((onAnnouncePeerQuery dataHash args' transactionId' remote').run.run m).1 =
            .ok (createAnnouncePeerResponse transactionId' m.myNodeId)) ∧
        (remote'.address ≠ remote.address ∨
            t.toInt + 2 * minutes announceTokenLifetime ≤ t'.toInt →
          ((onAnnouncePeerQuery dataHash args' transactionId' remote').run.run m).1 =
            .ok (createErrorResponse transactionId' 203 "Invalid or expired token"))) ↔
      (remote'.address = remote.address → t.toInt ≤ t'.toInt →
        t'.toInt < t.toInt + minutes announceTokenLifetime →
        timeWindow t'.toInt = timeWindow t.toInt))) := by
  have hgiven := token_of_reply hreply htoken
  rw [reply_of_announce ha, hat, hgiven, hn, hm]
  have hsame : remote'.address = remote.address → timeWindow t'.toInt = timeWindow t.toInt →
      generateToken dataHash remote t.toInt = generateToken dataHash remote' t'.toInt := by
    intro haddress hwindow
    refine congrArg (shortHash dataHash) ?_
    unfold tokenInput
    rw [haddress, hwindow]
  refine ⟨fun haddress hwindow => by rw [if_pos (hsame haddress hwindow)], fun hinj => ?_⟩
  have hback (heq : generateToken dataHash remote t.toInt =
      generateToken dataHash remote' t'.toInt) :=
    tokenInput_inj (Set.injOn_pair.mp hinj heq)
  constructor
  · rintro ⟨haccepted, -⟩ haddress hle hlt
    have htokens := haccepted haddress hle hlt
    by_contra hwindow
    rw [if_neg fun heq => hwindow (hback heq).2.symm] at htokens
    exact accepted_ne_refused _ _ (Except.ok.inj htokens).symm
  · intro hwindow
    refine ⟨fun haddress hle hlt => by rw [if_pos (hsame haddress (hwindow haddress hle hlt))],
      fun hother => ?_⟩
    rw [if_neg]
    intro heq
    cases hother with
    | inl hne => exact hne (hback heq).1.symm
    | inr hlate => exact timeWindow_ne hlate (hback heq).2

theorem announce_token_window_first :
    let dataHash : Bytes → Bytes := fun b => b.take 4 ++ b.reverse
    let id : NodeId := ⟨replicate 20 7, rfl⟩
    let remote : Endpoint := ⟨⟨1, 2, 3, 4⟩, 6881⟩
    let other : Endpoint := ⟨⟨5, 6, 7, 8⟩, 6881⟩
    let query : Dict := [(.ascii "info_hash", .str id.val)]
    let announce : Dict := [(.ascii "id", .str id.val), (.ascii "info_hash", .str id.val),
      (.ascii "port", .int 6881), (.ascii "token", .str (generateToken dataHash remote 0))]
    let reply := fun (e : Endpoint) (t : Int) =>
      ((onAnnouncePeerQuery dataHash announce [1, 1] e).run.run (new id t)).1
    (∃ v, ((onGetPeersQuery dataHash query [1, 1] remote).run.run (new id 0)).1 = .ok v ∧
      replyToken v = some (generateToken dataHash remote 0)) ∧
    reply remote (minutes 5) = .ok (createAnnouncePeerResponse [1, 1] id) ∧
    reply other 0 = .ok (createErrorResponse [1, 1] 203 "Invalid or expired token") ∧
    reply remote (minutes 20) =
      .ok (createErrorResponse [1, 1] 203 "Invalid or expired token") := by
  intro dataHash id remote other query announce reply
  have hreply : ((onGetPeersQuery dataHash query [1, 1] remote).run.run (new id 0)).1 =
      .ok ((new id 0).getPeersResponse dataHash id [1, 1] remote) := rfl
  have htoken := replyToken_getPeersResponse dataHash (new id 0) id [1, 1] remote
  have ha : ∀ e : Endpoint, announceOf announce e =
      some ⟨id, id, generateToken dataHash remote 0, 6881⟩ := fun _ => rfl
  -- the hash does not collide on the inputs that occur here
  have hinj : ∀ (e : Endpoint) (t : Int), shortHash dataHash (tokenInput remote 0) ≠
      shortHash dataHash (tokenInput e t) →
      Set.InjOn (shortHash dataHash) {tokenInput remote 0, tokenInput e t} :=
    fun e t hne => Set.injOn_pair.mpr fun heq => absurd heq hne
  have hnow : (new id 0).now = (0 : Int64).toInt := rfl
  have hnow₅ : (new id (minutes 5)).now = (300000000000 : Int64).toInt := by decide
  have hnow₂₀ : (new id (minutes 20)).now = (1200000000000 : Int64).toInt := by decide
  refine ⟨⟨_, hreply, htoken⟩, ?_, ?_, ?_⟩
  · exact (announce_token_window _ _ [1, 1] hnow hnow₅ hreply htoken (ha remote) rfl).1 rfl
      (by decide)
  · exact (((announce_token_window _ _ [1, 1] hnow hnow hreply htoken (ha other) rfl).2
      (hinj other 0 (by decide))).mpr (by decide)).2 (.inl (by decide))
  · exact (((announce_token_window _ _ [1, 1] hnow hnow₂₀ hreply htoken (ha remote) rfl).2
      (hinj remote (minutes 20) (by decide))).mpr (by decide)).2 (.inr (by decide))

/-- A token that is given in the last nanosecond of a window is refused in the next one. -/
theorem announce_token_refused :
    let id : NodeId := ⟨replicate 20 7, rfl⟩
    let remote : Endpoint := ⟨⟨1, 2, 3, 4⟩, 6881⟩
    let t : Int := minutes 10 - 1
    let query : Dict := [(.ascii "info_hash", .str id.val)]
    let announce : Dict := [(.ascii "id", .str id.val), (.ascii "info_hash", .str id.val),
      (.ascii "port", .int 6881), (.ascii "token", .str (generateToken reverse remote t))]
    (∃ v, ((onGetPeersQuery reverse query [1, 1] remote).run.run (new id t)).1 = .ok v ∧
      replyToken v = some (generateToken reverse remote t)) ∧
    ((onAnnouncePeerQuery reverse announce [1, 1] remote).run.run (new id (t + 1))).1 =
      .ok (createErrorResponse [1, 1] 203 "Invalid or expired token") := by
  intro id remote t query announce
  have ha : announceOf announce remote =
      some ⟨id, id, generateToken reverse remote t, 6881⟩ := rfl
  refine ⟨⟨(new id t).getPeersResponse reverse id [1, 1] remote, rfl, ?_⟩, ?_⟩
  · exact replyToken_getPeersResponse reverse (new id t) id [1, 1] remote
  · rw [reply_of_announce ha, if_neg]
    decide

end DhtNode

end P2P
