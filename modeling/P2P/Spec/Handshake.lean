import P2P.ForStd.Duplex
import P2P.Native.Handshake
import P2P.Spec.Framing

/-!
# The encrypted handshake

What each side of the negotiation does on the messages of the other, for every way they arrive in
chunks.
-/

namespace P2P

open Rc4 StreamCipher List

/-! ## Words and hashes -/

@[simp] theorem length_toBe32 (v : UInt32) : (toBe32 v).length = 4 := rfl

@[simp] theorem length_toBe16 (v : UInt16) : (toBe16 v).length = 2 := rfl

@[simp] theorem length_verificationConstant : verificationConstant.length = 8 := rfl

@[simp] theorem fromBe32_toBe32 (v : UInt32) : fromBe32 (toBe32 v) = v := by
  have h := networkToHostLong_hostToNetworkLong v []
  rwa [append_nil] at h

@[simp] theorem fromBe16_toBe16 (v : UInt16) : fromBe16 (toBe16 v) = v := by
  apply UInt16.eq_of_toBitVec_eq
  simp only [fromBe16, toBe16, getD_cons_zero, getD_cons_succ, UInt16.toBitVec_or,
    UInt16.toBitVec_shiftLeft, UInt16.toBitVec_shiftRight, UInt8.toBitVec_toUInt16,
    UInt16.toBitVec_toUInt8]
  ext i hi
  have hbit := BitVec.getLsbD_eq_getElem (x := v.toBitVec) hi
  by_cases h : i < 8
  · simp [h, hbit]
  · have h1 : i - 8 < 8 := by omega
    have e : 8 + (i - 8) = i := by omega
    simp [h, h1, e, hbit]

@[simp] theorem length_hashArray (hash : Bytes) : (hashArray hash).length = 20 := by
  simp [hashArray]

theorem xorBytes_xorBytes {a b : Bytes} (h : a.length = b.length) :
    xorBytes (xorBytes a b) b = a := by
  unfold xorBytes
  induction a generalizing b with
  | nil => rfl
  | cons x a ih =>
    cases b with
    | nil => simp at h
    | cons y b =>
      simp only [zipWith_cons_cons, UInt8.xor_assoc, UInt8.xor_self, UInt8.xor_zero]
      rw [ih (by simpa using h)]

@[irreducible] def keyStream (key : Bytes) : Rc4 :=
  match init key with
  | .ok r => AsyncSocket.discardRc4 r
  | .error _ => {}

namespace AsyncSocket

open SocketM

variable {α : Type} {last : Nat} {s : AsyncSocket} {inp : Bytes} {sc : Script UInt8}
  {post : Post α}

/-! ## Rules for the steps of the negotiation -/

theorem follows_tryCatch {m handler : SocketM α} (h : Follows last post m s inp sc) :
    Follows last post (tryCatch m handler) s inp sc := by
  refine Coroutine.follows_bind.mpr (Coroutine.Follows.mono h ?_)
  rintro ⟨r, s'⟩ inp' sc' ⟨a, ha, hp⟩
  obtain rfl : r = .ok a := ha
  exact ⟨a, rfl, hp⟩

variable {f : Unit → SocketM α}

theorem follows_require {ok : Prop} [Decidable ok] {what : String} (hok : ok)
    (h : Follows last post (f ()) s inp sc) :
    Follows last post (require ok what >>= f) s inp sc := by
  rw [require, if_pos hok]
  exact Follows.bind (follows_pure h)

theorem follows_toSecret {b : Bytes} {f : Bytes → SocketM α} (hb : b.length = dhKeySize)
    (h : Follows last post (f b) s inp sc) : Follows last post (toSecret b >>= f) s inp sc :=
  Follows.bind (follows_require hb (follows_pure h))

variable {data : Bytes} {r : Nat}

theorem follows_sendRaw_plain (hplain : s.encrypting = none)
    (h : Follows last post (f ()) s inp sc) :
    Follows last post (sendRaw data >>= f) s inp ((r, data) :: sc) := by
  have henc : s.encryptOutgoing data = (data, s) := by
    unfold encryptOutgoing
    rw [hplain]
  refine Follows.bind ⟨r, sc, ?_, (), rfl, ?_⟩
  · rw [henc]
  · rw [henc]
    exact h

theorem follows_sendRaw_rc4 {k : Rc4} (hout : s.outgoing = some k)
    (h : ∀ s', s'.unread = s.unread → s'.incoming = s.incoming →
      s'.outgoing = some (cipher.crypt k data).2 → Follows last post (f ()) s' inp sc) :
    Follows last post (sendRaw data >>= f) s inp ((r, (cipher.crypt k data).1) :: sc) := by
  obtain ⟨hdata, hout', hin', hun'⟩ := encryptOutgoing_spec s data
  rw [hout, optional_crypt_some] at hdata hout'
  exact Follows.bind ⟨r, sc, by rw [hdata], (), rfl, h _ hun' hin' hout'⟩

theorem follows_opBeforeDeadline {op : SocketM Unit}
    {post : Post Bool}
    (h : Follows last (fun _ s inp sc => post true s inp sc) op s inp sc) :
    Follows last post (opBeforeDeadline op) s inp sc := by
  refine Coroutine.follows_bind.mpr (Coroutine.Follows.mono h ?_)
  rintro ⟨r, s'⟩ inp' sc' ⟨a, ha, hp⟩
  obtain rfl : r = .ok a := ha
  exact ⟨true, rfl, hp⟩

variable {timeout : String}

theorem follows_fillBefore {need : Nat} (hneed : need + sc.bound last ≤ (s.unread ++ inp).length)
    (h : ∀ s' inp', s'.unread ++ inp' = s.unread ++ inp → need ≤ s'.unread.length →
      s'.mse = s.mse → Follows last post (f ()) s' inp' sc) :
    Follows last post (fillBefore need timeout >>= f) s inp sc := by
  refine Follows.bind (Follows.bind (follows_opBeforeDeadline
    (follows_fillBuffer hneed fun s' inp' hs' hlen hmse => ?_)))
  rw [require, if_pos rfl]
  exact follows_pure (h s' inp' hs' hlen hmse)

variable {x y : Bytes} {n : Nat}

theorem follows_take {f : Bytes → SocketM α} (hxy : s.unread ++ inp = x ++ y) (hx : x.length = n)
    (hb : sc.bound last ≤ y.length)
    (h : ∀ s' inp', s'.unread ++ inp' = y → s'.mse = s.mse → Follows last post (f x) s' inp' sc) :
    Follows last post (fillBefore n timeout >>= fun _ => consumeBytes n >>= f) s inp sc := by
  refine follows_fillBefore ?_ fun s₁ inp₁ h₁ hlen hmse₁ => ?_
  · rw [hxy, length_append]
    omega
  · exact follows_consumeBytes (h₁.trans hxy) hx hlen fun s₂ h₂ hmse₂ =>
      h s₂ inp₁ h₂ (hmse₂.trans hmse₁)

variable {act rc4 : Bool} {e d : Rc4}

/-- The operation returns at once. Of the socket it changes the encryption only. -/
def Sets {β : Type} (m : SocketM β) (s : AsyncSocket) (b : β) (mse : MseCrypto) : Prop :=
  ∃ s', m.run s = .done (.ok b, s') ∧ s'.unread = s.unread ∧ s'.mse = some mse

theorem Sets.follows {β : Type} {m : SocketM β} {f : β → SocketM α} {b : β} {mse : MseCrypto}
    (hm : Sets m s b mse) (h : ∀ s', s'.unread = s.unread → s'.mse = some mse →
      Follows last post (f b) s' inp sc) : Follows last post (m >>= f) s inp sc := by
  obtain ⟨s', hrun, hun, hmse⟩ := hm
  refine Follows.bind ?_
  rw [Follows, hrun]
  exact ⟨b, rfl, h s' hun hmse⟩

section

variable (hmse : s.mse = some ⟨act, rc4, e, d⟩)

include hmse

theorem sets_cryptEncrypt : Sets (cryptEncrypt data) s (cipher.crypt e data).1
    ⟨act, rc4, (cipher.crypt e data).2, d⟩ := by
  unfold Sets cryptEncrypt SocketM.modify
  dsimp only
  rw [hmse]
  exact ⟨_, rfl, rfl, rfl⟩

theorem sets_cryptDecrypt : Sets (cryptDecrypt data) s (cipher.crypt d data).1
    ⟨act, rc4, e, (cipher.crypt d data).2⟩ := by
  unfold Sets cryptDecrypt SocketM.modify
  dsimp only
  rw [hmse]
  exact ⟨_, rfl, rfl, rfl⟩

theorem sets_setRc4 (b : Bool) : Sets (setRc4 b) s () ⟨act, b, e, d⟩ :=
  ⟨_, rfl, rfl, congrArg (Option.map _) hmse⟩

theorem sets_activate :
    Sets activate s (if rc4 then .rc4 else .plaintext) ⟨true, rc4, e, d⟩ := by
  unfold Sets activate SocketM.modify
  dsimp only
  rw [hmse]
  exact ⟨_, rfl, rfl, rfl⟩

end

variable {later : Bytes}

theorem follows_readDec {f : Bytes → SocketM α} (hmse : s.mse = some ⟨act, rc4, e, d⟩)
    (hw : s.unread ++ inp = (cipher.crypt d (x ++ y)).1 ++ later) (hx : x.length = n)
    (hb : sc.bound last ≤ y.length + later.length)
    (h : ∀ s' inp' d', (cipher.crypt d x).2 = d' → s'.mse = some ⟨act, rc4, e, d'⟩ →
      s'.unread ++ inp' = (cipher.crypt d' y).1 ++ later → Follows last post (f x) s' inp' sc) :
    Follows last post (readDec n timeout >>= f) s inp sc := by
  rw [crypt_append, append_assoc] at hw
  refine Follows.bind (follows_take hw (by rw [length_crypt, hx]) ?_
    fun s₁ inp₁ h₁ hmse₁ => ?_)
  · rw [length_append, length_crypt]
    exact hb
  · rw [← bind_pure (cryptDecrypt _)]
    refine (sets_cryptDecrypt (hmse₁.trans hmse)).follows fun s₂ hun hmse₂ => follows_pure ?_
    rw [crypt_crypt] at hmse₂ ⊢
    exact h s₂ inp₁ _ rfl hmse₂ (by rw [hun, h₁])

theorem follows_readDec_last {f : Bytes → SocketM α} (hmse : s.mse = some ⟨act, rc4, e, d⟩)
    (hw : s.unread ++ inp = (cipher.crypt d x).1 ++ later) (hx : x.length = n)
    (hb : sc.bound last ≤ later.length)
    (h : ∀ s' inp', s'.mse = some ⟨act, rc4, e, (cipher.crypt d x).2⟩ → s'.unread ++ inp' = later →
      Follows last post (f x) s' inp' sc) :
    Follows last post (readDec n timeout >>= f) s inp sc := by
  rw [← append_nil x] at hw
  refine follows_readDec hmse hw hx (by simpa using hb) fun s' inp' d' hd' hmse' hw' => ?_
  subst hd'
  exact h s' inp' hmse' (by simpa using hw')

variable {pad : Bytes}

theorem follows_readPad (hmse : s.mse = some ⟨act, rc4, e, d⟩)
    (hw : s.unread ++ inp = (cipher.crypt d (pad ++ y)).1 ++ later)
    (hb : sc.bound last ≤ y.length + later.length)
    (h : ∀ s' inp' d', (cipher.crypt d pad).2 = d' → s'.mse = some ⟨act, rc4, e, d'⟩ →
      s'.unread ++ inp' = (cipher.crypt d' y).1 ++ later → Follows last post (f ()) s' inp' sc) :
    Follows last post (readPad pad.length timeout >>= f) s inp sc := by
  unfold readPad
  split
  · exact Follows.bind (follows_readDec hmse hw rfl hb fun s' inp' d' hd' hmse' hw' =>
      follows_pure (h s' inp' d' hd' hmse' hw'))
  · rename_i hpos
    obtain rfl : pad = [] := length_eq_zero_iff.mp (by omega)
    exact Follows.bind (follows_pure (h s inp d rfl hmse hw))

theorem init_eq_ok {key : Bytes} (hkey : key ≠ []) :
    ∃ r, init key = .ok r ∧ keyStream key = discardRc4 r := by
  cases hr : init key with
  | error what =>
    rw [init, if_neg hkey] at hr
    cases hr
  | ok r =>
    refine ⟨r, rfl, ?_⟩
    unfold keyStream
    rw [hr]

theorem sets_initStreams {encryptKey decryptKey : Bytes} (he : encryptKey ≠ [])
    (hd : decryptKey ≠ []) : Sets (initStreams encryptKey decryptKey) s ()
      ⟨false, false, keyStream encryptKey, keyStream decryptKey⟩ := by
  obtain ⟨e, hinit, hkey⟩ := init_eq_ok he
  obtain ⟨d, hinit', hkey'⟩ := init_eq_ok hd
  rw [hkey, hkey']
  unfold initStreams
  rw [hinit, hinit']
  exact ⟨_, rfl, rfl, rfl⟩

variable {rest : Bytes}

theorem search_unread {pattern : Bytes} (hfirst : FirstAt pattern pad) (hpat : pattern ≠ [])
    (hv : s.unread ++ inp = pad ++ pattern ++ rest) :
    search pattern s.unread =
      if pad.length + pattern.length ≤ s.unread.length then some pad.length else none := by
  have hu : s.unread <+: pad ++ pattern ++ rest := hv ▸ prefix_append ..
  have hp : pad ++ pattern <+: pad ++ pattern ++ rest := prefix_append ..
  split
  · rename_i hlen
    obtain ⟨rest', hrest⟩ := prefix_of_prefix_length_le hp hu (by simpa using hlen)
    rw [← hrest]
    exact search_append hfirst hpat rest'
  · rename_i hlen
    have hpre := prefix_of_prefix_length_le hu hp (by simp; omega)
    exact search_of_isPrefix hfirst hpre (by omega)

/-- **The scan finds the pattern where the peer has put it**, whatever has arrived before. -/
theorem follows_scanFor {pattern : Bytes} {limit fuel : Nat} {notFound : String}
    {post : Post Nat} (hfirst : FirstAt pattern pad)
    (hpat : pattern ≠ []) (hv : s.unread ++ inp = pad ++ pattern ++ rest)
    (hb : sc.bound last ≤ rest.length) (hlimit : pad.length + pattern.length ≤ limit)
    (hfuel : pad.length + pattern.length ≤ fuel + s.unread.length)
    (h : ∀ s' inp', s'.unread ++ inp' = pad ++ pattern ++ rest →
      pad.length + pattern.length ≤ s'.unread.length → s'.mse = s.mse →
      post pad.length s' inp' sc) :
    Follows last post (scanFor pattern limit notFound timeout (fuel + 1)) s inp sc := by
  -- every pass that does not find the pattern leaves at least one byte more in the buffer
  induction fuel generalizing s inp with
  | zero =>
    refine follows_modify ?_
    dsimp only
    rw [search_unread hfirst hpat hv, if_pos (by omega)]
    exact follows_pure (h s inp hv (by omega) rfl)
  | succ fuel ih =>
    refine follows_modify ?_
    dsimp only
    rw [search_unread hfirst hpat hv]
    by_cases hlen : pad.length + pattern.length ≤ s.unread.length
    · rw [if_pos hlen]
      exact follows_pure (h s inp hv hlen rfl)
    · rw [if_neg hlen]
      refine follows_require (by omega) (follows_fillBefore ?_ fun s' inp' hs' hlen' hmse => ?_)
      · rw [hv]
        simp only [length_append]
        omega
      · refine ih (hs'.trans hv) (by omega) fun s₂ inp₂ h₂ hlen₂ hmse₂ => ?_
        exact h s₂ inp₂ h₂ hlen₂ (hmse₂.trans hmse)

/-! ## The messages -/

/-- The encrypted part of the initiator's second message: the constant, its methods, padding, and
    the handshake. -/
def helloBlock (provide : UInt32) (padC ia : Bytes) : Bytes :=
  verificationConstant ++ (toBe32 provide ++ (toBe16 (UInt16.ofNat padC.length) ++
    (padC ++ (toBe16 (UInt16.ofNat ia.length) ++ ia))))

def replyBlock (select : UInt32) : Bytes :=
  verificationConstant ++ toBe32 select ++ toBe16 0

section

variable (sha1 : Bytes → Bytes) (secret skey : Bytes)

def streamA : Rc4 := keyStream (keyA sha1 secret skey)

def streamB : Rc4 := keyStream (keyB sha1 secret skey)

def hello (provide : UInt32) (padC ia : Bytes) : Bytes :=
  syncHash sha1 secret ++ (xorBytes (skeyHash sha1 skey) (skeyMask sha1 secret) ++
    (cipher.crypt (streamA sha1 secret skey) (helloBlock provide padC ia)).1)

end

variable {sha1 : Bytes → Bytes} {dh : DhKeyPair} {skey hs peerPub peerHs later : Bytes}

@[simp] theorem length_syncHash (secret : Bytes) : (syncHash sha1 secret).length = 20 :=
  length_hashArray _

@[simp] theorem length_skeyHash (skey : Bytes) : (skeyHash sha1 skey).length = 20 :=
  length_hashArray _

@[simp] theorem length_skeyMask (secret : Bytes) : (skeyMask sha1 secret).length = 20 :=
  length_hashArray _

theorem keyA_ne_nil (secret skey : Bytes) : keyA sha1 secret skey ≠ [] :=
  ne_nil_of_length_pos (by simp [keyA, sha1Concat3])

theorem keyB_ne_nil (secret skey : Bytes) : keyB sha1 secret skey ≠ [] :=
  ne_nil_of_length_pos (by simp [keyB, sha1Concat3])

theorem encrypting_of_fresh (hfresh : s.mse = none) : s.encrypting = none := by
  rw [encrypting, hfresh]
  rfl

theorem encrypting_of_not_active (hmse : s.mse = some ⟨false, rc4, e, d⟩) :
    s.encrypting = none := by
  simp [encrypting, hmse, Option.filter]

theorem streams_of_rc4 (hmse : s.mse = some ⟨true, true, e, d⟩) :
    s.outgoing = some e ∧ s.incoming = some d := by
  simp [outgoing, incoming, encrypting, hmse, Option.filter]

/-! ## The initiator -/

theorem helloBlock_nil (provide : UInt32) (hhs : hs.length = handshakeLen) :
    helloBlock provide [] hs = verificationConstant ++ toBe32 provide ++ toBe16 0 ++
      toBe16 (UInt16.ofNat handshakeLen) ++ hs := by
  simp [helloBlock, hhs]

variable {post : Post (MseResult × Bytes)}

theorem follows_awaitReply (hmse : s.mse = some ⟨act, rc4, e, d⟩)
    (hpeer : peerHs.length = handshakeLen)
    (hv : s.unread ++ inp = (cipher.crypt d (replyBlock cryptoRc4 ++ peerHs)).1 ++ later)
    (hb : sc.bound last ≤ later.length)
    (h : ∀ s' inp', s'.unread ++ inp' = later →
      s'.mse = some ⟨true, true, e, (cipher.crypt d (replyBlock cryptoRc4 ++ peerHs)).2⟩ →
      post (.rc4, peerHs) s' inp' sc) : Follows last post awaitReply s inp sc := by
  -- the scan looks for the constant, enciphered; the rest of the reply comes after it
  have hsplit : replyBlock cryptoRc4 ++ peerHs =
      verificationConstant ++ ((toBe32 cryptoRc4 ++ toBe16 0) ++ peerHs) := by
    simp [replyBlock]
  rw [hsplit, crypt_append] at hv h
  dsimp only at hv h
  refine (sets_cryptDecrypt hmse).follows fun s₁ hun₁ hmse₁ => Follows.bind ?_
  have hlen : (cipher.crypt d verificationConstant).1.length = 8 :=
    length_crypt ..
  generalize (cipher.crypt d verificationConstant).1 = vcCt at *
  generalize (cipher.crypt d verificationConstant).2 = d₁ at *
  rw [← hun₁, append_assoc, ← nil_append (vcCt ++ _), ← append_assoc] at hv
  refine follows_scanFor (firstAt_nil _) (ne_nil_of_length_pos (by omega)) hv ?_ ?_ ?_
    fun s₂ inp₂ hv₂ hlen₂ hmse₂ => ?_
  · simp only [length_append]
    omega
  · simp [hlen, maxPadSize]
  · simp [hlen, maxPadSize]
    omega
  rw [length_nil, Nat.zero_add] at hlen₂ ⊢
  refine follows_consumeBytes hv₂ hlen (by omega) fun s₃ hv₃ hmse₃ => ?_
  -- the method and the length of the padding, then the handshake
  refine follows_readDec (hmse₃.trans (hmse₂.trans hmse₁)) hv₃ rfl (by omega)
    fun s₄ inp₄ d₄ hd₄ hmse₄ hv₄ => ?_
  have hselect : fromBe32 ((toBe32 cryptoRc4 ++ toBe16 0).take 4) = cryptoRc4 := by decide
  have hpad : (fromBe16 ((toBe32 cryptoRc4 ++ toBe16 0).drop 4)).toNat = ([] : Bytes).length := by
    decide
  rw [hselect]
  rw [takeSelect, if_neg (by decide), if_pos rfl]
  refine (sets_setRc4 hmse₄ true).follows fun s₅ hun₅ hmse₅ => ?_
  dsimp only
  rw [hpad]
  rw [← hun₅, ← nil_append peerHs] at hv₄
  refine follows_require (Nat.zero_le _) (follows_readPad hmse₅ hv₄ (by omega)
    fun s₆ inp₆ d₆ hd₆ hmse₆ hv₆ => ?_)
  obtain rfl : d₄ = d₆ := hd₆
  refine follows_readDec_last hmse₆ hv₆ hpeer hb fun s₇ inp₇ hmse₇ hv₇ => ?_
  refine (sets_activate hmse₇).follows fun s₈ hun₈ hmse₈ => follows_pure ?_
  refine h s₈ inp₇ (by rw [hun₈, hv₇]) ?_
  rw [hmse₈, crypt_append, hd₄]

variable {r₀ r₁ : Nat}

theorem follows_initiate (hfresh : s.mse = none) (hhs : hs.length = handshakeLen)
    (hpub : peerPub.length = dhKeySize) (hpeer : peerHs.length = handshakeLen)
    (hv : s.unread ++ inp =
      peerPub ++ ((cipher.crypt (streamB sha1 (dh.computeSecret peerPub) skey)
        (replyBlock cryptoRc4 ++ peerHs)).1 ++ later))
    (hr₁ : r₁ ≤ 82 + later.length) (hlast : last ≤ later.length)
    (h : ∀ s' inp', s'.unread ++ inp' = later →
      s'.mse = some ⟨true, true,
        (cipher.crypt (streamA sha1 (dh.computeSecret peerPub) skey)
          (helloBlock cryptoAll [] hs)).2,
        (cipher.crypt (streamB sha1 (dh.computeSecret peerPub) skey)
          (replyBlock cryptoRc4 ++ peerHs)).2⟩ → post (.rc4, peerHs) s' inp' []) :
    Follows last post (initiate sha1 dh skey hs) s inp
      [(r₀, dh.pub), (r₁, hello sha1 (dh.computeSecret peerPub) skey cryptoAll [] hs)] := by
  refine follows_require hhs (follows_sendRaw_plain (encrypting_of_fresh hfresh) ?_)
  refine follows_take hv hpub ?_ fun s₁ inp₁ h₁ hmse₁ => follows_toSecret hpub ?_
  · simp [replyBlock, hpeer, handshakeLen]
    omega
  generalize dh.computeSecret peerPub = secret at *
  refine (sets_initStreams (keyA_ne_nil _ _) (keyB_ne_nil _ _)).follows fun s₂ hun₂ hmse₂ => ?_
  -- the block and the handshake are enciphered one after the other
  refine (sets_cryptEncrypt hmse₂).follows fun s₃ hun₃ hmse₃ => ?_
  refine (sets_cryptEncrypt hmse₃).follows fun s₄ hun₄ hmse₄ => ?_
  rw [hello, helloBlock_nil _ hhs]
  rw [helloBlock_nil _ hhs] at h
  generalize verificationConstant ++ toBe32 cryptoAll ++ toBe16 0 ++
    toBe16 (UInt16.ofNat handshakeLen) = block at *
  rw [streamA, crypt_append, ← append_assoc, ← append_assoc]
  rw [streamA, crypt_append] at h
  refine follows_sendRaw_plain (encrypting_of_not_active hmse₄) ?_
  refine follows_awaitReply hmse₄ hpeer ?_ hlast h
  rw [hun₄, hun₃, hun₂, h₁]
  rfl

/-! ## The acceptor -/

variable {secret padA padC ia : Bytes} {provide : UInt32}

theorem toNat_fromBe16_toBe16 (h : n < 65536) : (fromBe16 (toBe16 (UInt16.ofNat n))).toNat = n := by
  rw [fromBe16_toBe16, UInt16.toNat_ofNat', Nat.mod_eq_of_lt h]

theorem follows_readHello {post : Post (UInt32 × Bytes)}
    (hmse : s.mse = some ⟨act, rc4, e, streamA sha1 secret skey⟩)
    (hfirst : FirstAt (syncHash sha1 secret) padA) (hpadA : padA.length < maxPadSize)
    (hpadC : padC.length < maxPadSize) (hia : ia.length = handshakeLen)
    (hv : s.unread ++ inp = padA ++ (hello sha1 secret skey provide padC ia ++ later))
    (hb : sc.bound last ≤ later.length)
    (h : ∀ s' inp', s'.unread ++ inp' = later →
      s'.mse = some ⟨act, rc4, e, (cipher.crypt (streamA sha1 secret skey)
        (helloBlock provide padC ia)).2⟩ →
      post (provide, ia) s' inp' sc) : Follows last post (readHello sha1 secret skey) s inp sc := by
  unfold maxPadSize at hpadA hpadC
  have hlenC : (fromBe16 (toBe16 (UInt16.ofNat padC.length))).toNat = padC.length :=
    toNat_fromBe16_toBe16 (by omega)
  have hlenIa : (fromBe16 (toBe16 (UInt16.ofNat ia.length))).toNat = ia.length :=
    toNat_fromBe16_toBe16 (by rw [hia]; decide)
  rw [hello, append_assoc, append_assoc, ← append_assoc] at hv
  unfold readHello
  generalize streamA sha1 secret skey = d₀ at *
  generalize hsync : syncHash sha1 secret = sync at *
  have hsyncLen : sync.length = 20 := hsync ▸ length_syncHash secret
  -- the sync hash, past the padding
  refine Follows.bind (follows_scanFor hfirst (ne_nil_of_length_pos (by omega)) hv ?_ ?_ ?_
    fun s₁ inp₁ hv₁ hlen₁ hmse₁ => ?_)
  · simp only [length_append]
    omega
  · simp only [maxPadSize]
    omega
  · simp only [maxPadSize]
    omega
  rw [append_assoc] at hv₁
  refine follows_consumeBytes hv₁ rfl (by omega) fun s₂ hv₂ hmse₂ => ?_
  have hlen₂ : 20 ≤ s₂.unread.length := by
    have h₁ := congrArg length hv₁
    have h₂ := congrArg length hv₂
    simp only [length_append] at h₁ h₂
    omega
  refine follows_consumeBytes hv₂ hsyncLen hlen₂ fun s₃ hv₃ hmse₃ => ?_
  -- the masked hash of the torrent
  have hobf : (xorBytes (skeyHash sha1 skey) (skeyMask sha1 secret)).length = 20 := by
    simp [xorBytes]
  refine follows_take hv₃ hobf ?_ fun s₄ inp₄ hv₄ hmse₄ => ?_
  · simp only [length_append]
    omega
  refine follows_require (xorBytes_xorBytes (by simp)) ?_
  -- the fields of the encrypted block
  rw [helloBlock] at hv₄ h
  have hmse₄' : s₄.mse = some ⟨act, rc4, e, d₀⟩ := by rw [hmse₄, hmse₃, hmse₂, hmse₁, hmse]
  refine follows_readDec hmse₄' hv₄ rfl ?_ fun s₅ inp₅ d₅ hd₅ hmse₅ hv₅ => follows_require rfl ?_
  · simp only [length_append]
    omega
  refine follows_readDec hmse₅ hv₅ rfl ?_ fun s₆ inp₆ d₆ hd₆ hmse₆ hv₆ => ?_
  · simp only [length_append]
    omega
  refine follows_readDec hmse₆ hv₆ rfl ?_ fun s₇ inp₇ d₇ hd₇ hmse₇ hv₇ => ?_
  · simp only [length_append]
    omega
  rw [hlenC]
  refine follows_require (by unfold maxPadSize; omega) (follows_readPad hmse₇ hv₇ ?_
    fun s₈ inp₈ d₈ hd₈ hmse₈ hv₈ => ?_)
  · simp only [length_append]
    omega
  refine follows_readDec hmse₈ hv₈ rfl ?_ fun s₉ inp₉ d₉ hd₉ hmse₉ hv₉ => ?_
  · omega
  rw [hlenIa]
  refine follows_require hia (follows_readDec_last hmse₉ hv₉ rfl hb fun s' inp' hmse' hv' => ?_)
  rw [fromBe32_toBe32]
  refine follows_pure (h s' inp' hv' ?_)
  rw [hmse']
  simp only [crypt_append, hd₅, hd₆, hd₇, hd₈, hd₉]

def selected (provide : UInt32) : UInt32 :=
  if provide &&& cryptoRc4 ≠ 0 then cryptoRc4 else cryptoPlaintext

def resultOf (select : UInt32) : MseResult :=
  if select = cryptoRc4 then .rc4 else .plaintext

/-- The reply as it goes out, and the stream after it: it is enciphered only under RC4. -/
def reply (select : UInt32) (e : Rc4) : Bytes × Rc4 :=
  if select = cryptoRc4 then cipher.crypt e (replyBlock select) else (replyBlock select, e)

theorem follows_sendReply {post : Post MseResult}
    (hprovide : provide &&& cryptoRc4 ≠ 0 ∨ provide &&& cryptoPlaintext ≠ 0)
    (hmse : s.mse = some ⟨false, rc4, e, d⟩)
    (h : ∀ s', s'.unread = s.unread →
      s'.mse = some ⟨true, selected provide = cryptoRc4, (reply (selected provide) e).2, d⟩ →
      post (resultOf (selected provide)) s' inp sc) :
    Follows last post (sendReply provide) s inp ((r, (reply (selected provide) e).1) :: sc) := by
  have hchoose : chooseSelect provide = pure (selected provide) := by
    unfold chooseSelect selected
    split
    · rfl
    · rename_i hrc4
      rw [if_pos (hprovide.resolve_left hrc4)]
  unfold sendReply
  rw [hchoose]
  generalize selected provide = select at *
  refine Follows.bind (follows_pure ((sets_setRc4 hmse _).follows fun s₁ hun₁ hmse₁ => ?_))
  rw [← bind_pure activate]
  unfold step4
  by_cases hselect : select = cryptoRc4
  · rw [if_pos hselect]
    rw [reply, if_pos hselect] at h ⊢
    refine (sets_cryptEncrypt hmse₁).follows fun s₂ hun₂ hmse₂ => ?_
    refine follows_sendRaw_plain (encrypting_of_not_active hmse₂) ?_
    refine (sets_activate hmse₂).follows fun s₃ hun₃ hmse₃ => follows_pure ?_
    have hpost := h s₃ (by rw [hun₃, hun₂, hun₁]) hmse₃
    rw [resultOf, if_pos hselect] at hpost
    simpa [hselect] using hpost
  · rw [if_neg hselect]
    rw [reply, if_neg hselect] at h ⊢
    refine Follows.bind (follows_pure ?_)
    refine follows_sendRaw_plain (encrypting_of_not_active hmse₁) ?_
    refine (sets_activate hmse₁).follows fun s₃ hun₃ hmse₃ => follows_pure ?_
    have hpost := h s₃ (by rw [hun₃, hun₁]) hmse₃
    rw [resultOf, if_neg hselect] at hpost
    simpa [hselect] using hpost

theorem follows_accept_first {first : UInt8} (hv : s.unread ++ inp = first :: rest)
    (hb : sc.bound last ≤ rest.length)
    (h : ∀ s' inp', s'.unread ++ inp' = first :: rest → s'.mse = s.mse →
      Follows last post (if some first = some 0x13 then pure (.plaintext, [])
        else acceptEncrypted sha1 dh skey) s' inp' sc) :
    Follows last post (mseHandshakeAcceptor sha1 dh skey) s inp sc := by
  refine follows_tryCatch (follows_fillBefore ?_ fun s₁ inp₁ h₁ hlen hmse => follows_modify ?_)
  · rw [hv, length_cons]
    omega
  · have hfirst : s₁.unread.head? = some first := by
      cases hu : s₁.unread with
      | nil => simp [hu] at hlen
      | cons a u =>
        rw [hu, hv] at h₁
        cases h₁
        rfl
    dsimp only
    rw [hfirst]
    exact h s₁ inp₁ (h₁.trans hv) hmse

theorem follows_accept (hhead : peerPub.head? ≠ some 0x13) (hpub : peerPub.length = dhKeySize)
    (hv : s.unread ++ inp = peerPub ++ rest) (hb : sc.bound last ≤ rest.length)
    (h : ∀ s' inp', s'.unread ++ inp' = peerPub ++ rest → s'.mse = s.mse →
      Follows last post (acceptEncrypted sha1 dh skey) s' inp' sc) :
    Follows last post (mseHandshakeAcceptor sha1 dh skey) s inp sc := by
  cases peerPub with
  | nil => cases hpub
  | cons first key =>
    rw [cons_append] at hv h
    refine follows_accept_first hv (by rw [length_append]; omega) fun s' inp' h' hmse => ?_
    rw [if_neg (by simpa using hhead)]
    exact h s' inp' h' hmse

section

variable (hfresh : s.mse = none) (hpub : peerPub.length = dhKeySize)
  (hfirst : FirstAt (syncHash sha1 (dh.computeSecret peerPub)) padA)
  (hpadA : padA.length < maxPadSize) (hpadC : padC.length < maxPadSize)
  (hia : ia.length = handshakeLen)
  (hv : s.unread ++ inp =
    peerPub ++ (padA ++ (hello sha1 (dh.computeSecret peerPub) skey provide padC ia ++ later)))
  (hr₀ : r₀ ≤ padA.length + (hello sha1 (dh.computeSecret peerPub) skey provide padC ia).length +
    later.length)
  (hr₁ : r₁ ≤ later.length)

include hfresh hpub hfirst hpadA hpadC hia hv hr₀ hr₁

/-- **What the acceptor does on the messages of an initiator**: it answers with its public key and
    its reply, and has its handshake. -/
theorem follows_acceptEncrypted {select : UInt32} {rep : Bytes × Rc4}
    (hprovide : provide &&& cryptoRc4 ≠ 0 ∨ provide &&& cryptoPlaintext ≠ 0)
    (hselect : selected provide = select)
    (hrep : reply select (streamB sha1 (dh.computeSecret peerPub) skey) = rep)
    (h : ∀ s' inp', s'.unread ++ inp' = later →
      s'.mse = some ⟨true, select = cryptoRc4, rep.2,
        (cipher.crypt (streamA sha1 (dh.computeSecret peerPub) skey)
          (helloBlock provide padC ia)).2⟩ → post (resultOf select, ia) s' inp' sc) :
    Follows last post (acceptEncrypted sha1 dh skey) s inp
      ((r₀, dh.pub) :: (r₁, rep.1) :: sc) := by
  subst hselect hrep
  refine follows_take hv hpub ?_ fun s₁ inp₁ h₁ hmse₁ => ?_
  · simp only [length_append, Script.bound_cons]
    omega
  refine follows_sendRaw_plain (encrypting_of_fresh (hmse₁.trans hfresh))
    (follows_toSecret hpub ?_)
  generalize dh.computeSecret peerPub = secret at *
  refine (sets_initStreams (keyB_ne_nil _ _) (keyA_ne_nil _ _)).follows fun s₂ hun₂ hmse₂ => ?_
  refine Follows.bind (follows_readHello hmse₂ hfirst hpadA hpadC hia (by rw [hun₂, h₁]) hr₁
    fun s₃ inp₃ h₃ hmse₃ => Follows.bind ?_)
  refine follows_sendReply hprovide hmse₃ fun s₄ hun₄ hmse₄ => follows_pure ?_
  exact h s₄ inp₃ (by rw [hun₄, h₃]) hmse₄

theorem follows_acceptHandshake {r₂ : Nat}
    {post : Post (Option Bytes)}
    (hhead : peerPub.head? ≠ some 0x13) (hprovide : provide &&& cryptoRc4 ≠ 0)
    (h : ∀ s' inp', s'.unread ++ inp' = later →
      s'.outgoing = some (cipher.crypt (streamB sha1 (dh.computeSecret peerPub) skey)
        (replyBlock cryptoRc4 ++ hs)).2 →
      s'.incoming = some (cipher.crypt (streamA sha1 (dh.computeSecret peerPub) skey)
        (helloBlock provide padC ia)).2 → post (some ia) s' inp' sc) :
    Follows last post (acceptHandshake sha1 dh skey hs) s inp
      ((r₀, dh.pub) ::
        (r₁, (cipher.crypt (streamB sha1 (dh.computeSecret peerPub) skey)
          (replyBlock cryptoRc4)).1) ::
        (r₂, (cipher.crypt (cipher.crypt (streamB sha1 (dh.computeSecret peerPub) skey)
          (replyBlock cryptoRc4)).2 hs).1) :: sc) := by
  have hselect : selected provide = cryptoRc4 := if_pos hprovide
  refine Follows.bind (follows_accept hhead hpub hv ?_ fun s₁ inp₁ h₁ hmse₁ => ?_)
  · simp only [length_append, Script.bound_cons]
    omega
  refine follows_acceptEncrypted (hmse₁.trans hfresh) hpub hfirst hpadA hpadC hia h₁ hr₀ hr₁
    (.inl hprovide) hselect (if_pos rfl) fun s₂ inp₂ h₂ hmse₂ => ?_
  -- the negotiation is complete: our handshake goes out enciphered
  obtain ⟨hout, hin⟩ := streams_of_rc4 hmse₂
  refine follows_sendRaw_rc4 hout fun s₃ hun₃ hin₃ hout₃ => follows_pure ?_
  refine h s₃ inp₂ (by rw [hun₃, h₂]) ?_ (hin₃.trans hin)
  rw [hout₃, crypt_append]

end

theorem follows_plainHandshake
    {post : Post (Option Bytes)} (hclear : s.encrypting = none)
    (hpeer : peerHs.length = handshakeLen) (hv : s.unread ++ inp = peerHs ++ later)
    (h : ∀ s' inp', s'.unread ++ inp' = later → s'.incoming = none →
      post (some peerHs) s' inp' []) :
    Follows 0 post (plainHandshake hs) s inp [(r, hs)] := by
  have hin : s.incoming = none := by rw [incoming, hclear]; rfl
  refine follows_sendRaw_plain hclear (Follows.bind ?_)
  have hw : s.Awaits inp (peerHs ++ []) later := by
    rw [Awaits, hin, optional_crypt_none, hv, append_nil]
  rw [← hpeer]
  refine follows_receiveRaw hw (Nat.zero_le _) fun s' inp' h' _ hin' => follows_pure ?_
  rw [hin, optional_crypt_none] at hin'
  refine h s' inp' ?_ hin'
  rw [Awaits, hin'] at h'
  simpa using h'

/-- A public key that begins with `0x13` is taken for a plain handshake. -/
theorem follows_acceptHandshake_head
    {post : Post (Option Bytes)} (hfresh : s.mse = none)
    (hpub : peerPub.length = dhKeySize) (hhead : peerPub.head? = some 0x13)
    (hv : s.unread ++ inp = peerPub ++ rest) (hr₀ : r₀ ≤ 28)
    (h : ∀ s' inp', s'.unread ++ inp' = peerPub.drop handshakeLen ++ rest → s'.incoming = none →
      post (some (peerPub.take handshakeLen)) s' inp' []) :
    Follows 0 post (acceptHandshake sha1 dh skey hs) s inp [(r₀, hs)] := by
  have hlen : (peerPub.take handshakeLen).length = handshakeLen :=
    length_take_of_le (by rw [hpub]; decide)
  refine Follows.bind ?_
  cases peerPub with
  | nil => cases hpub
  | cons first key =>
    have hkey : key.length = 95 := by simpa [dhKeySize] using hpub
    rw [cons_append] at hv
    refine follows_accept_first hv ?_ fun s₁ inp₁ h₁ hmse => ?_
    · rw [length_append, Script.bound_cons]
      omega
    rw [if_pos (by simpa using hhead)]
    refine follows_pure (follows_plainHandshake (encrypting_of_fresh (hmse.trans hfresh)) hlen
      ?_ h)
    rw [h₁, ← append_assoc, take_append_drop, cons_append]

/-! ## Both sides -/

theorem completes_of_follows {γ : Type} {mL : SocketM α} {mR : SocketM γ} {a b : AsyncSocket}
    {postL : α → AsyncSocket → Prop} {postR : γ → AsyncSocket → Prop} {scL scR : Script UInt8}
    (hleft : mL.Follows 0 (fun r s inp sc => (inp = [] ∧ sc = []) ∧ postL r s) a scR.output scL)
    (hright : mR.Follows 0 (fun r s inp sc => (inp = [] ∧ sc = []) ∧ postR r s) b scL.output scR)
    (hwait : Duplex.NeverWait 0 0 scL scR) :
    Duplex.Completes readChunkSize ⟨mL.run a, mR.run b, [], []⟩ fun x y =>
      (∃ r, x.1 = .ok r ∧ postL r x.2) ∧ ∃ r, y.1 = .ok r ∧ postR r y.2 := by
  have hmeshed : Duplex.Meshed readChunkSize 0 0 _ _ scL scR ⟨mL.run a, mR.run b, [], []⟩ :=
    ⟨hleft, hright, hwait⟩
  refine (hmeshed.completes (by decide) ?_ ?_).mono ?_
  · rintro x inp sc ⟨r, -, h, -⟩
    exact h
  · rintro y inp sc ⟨r, -, h, -⟩
    exact h
  · rintro x y ⟨⟨r, hr, -, hL⟩, r', hr', -, hR⟩
    exact ⟨⟨r, hr, hL⟩, r', hr', hR⟩

theorem length_hello (hhs : hs.length = handshakeLen) :
    (hello sha1 secret skey provide [] hs).length = 124 := by
  simp [hello, helloBlock, xorBytes, hhs, handshakeLen]

theorem neverWait_handshake {pubA m₁ pubB m₂ m₃ : Bytes} (hm₁ : m₁.length = 124)
    (hpubB : pubB.length = dhKeySize) (hm₂ : m₂.length = 14) (hm₃ : m₃.length = handshakeLen) :
    Duplex.NeverWait 0 0 [(178, pubA), (82, m₁)] [(124, pubB), (0, m₂), (0, m₃)] := by
  unfold dhKeySize at hpubB
  unfold handshakeLen at hm₃
  intro sl hl sr hr
  simp only [tails, mem_cons, not_mem_nil, or_false] at hl hr
  obtain rfl | rfl | rfl := hl <;> obtain rfl | rfl | rfl | rfl := hr <;>
    simp only [Script.bound_cons, Script.bound_nil, Script.output_cons, Script.output_nil,
      length_append, length_nil] <;> omega

/-- Each side has the other's handshake, nothing is left unread, and what one enciphers with is what
    the other deciphers with. -/
def Agreed (hsA hsB : Bytes) (a : Except SocketError (MseResult × Bytes) × AsyncSocket)
    (b : Except SocketError (Option Bytes) × AsyncSocket) : Prop :=
  a.1 = .ok (.rc4, hsB) ∧ b.1 = .ok (some hsA) ∧ a.2.unread = [] ∧ b.2.unread = [] ∧
    ∃ kA kB, a.2.outgoing = some kA ∧ b.2.incoming = some kA ∧
      b.2.outgoing = some kB ∧ a.2.incoming = some kB

/-- **The encrypted handshake completes.** One side runs `mse_handshake_initiator`, the other
    `mse_handshake_acceptor` and then sends its handshake. -/
theorem mseHandshake_completes {sha1 : Bytes → Bytes} {dhA dhB : DhKeyPair}
    {skey hsA hsB : Bytes} {a b : AsyncSocket}
    (hsecret : dhA.computeSecret dhB.pub = dhB.computeSecret dhA.pub)
    (hA : hsA.length = handshakeLen) (hB : hsB.length = handshakeLen)
    (ha : a.mse = none) (hb : b.mse = none) (hau : a.unread = []) (hbu : b.unread = [])
    (hhead : dhA.pub.head? ≠ some 0x13) :
    Duplex.Completes readChunkSize
      ⟨(mseHandshakeInitiator sha1 dhA skey hsA).run a, (acceptHandshake sha1 dhB skey hsB).run b,
        [], []⟩
      (Agreed hsA hsB) := by
  generalize hS : dhA.computeSecret dhB.pub = secret at hsecret
  -- what each side is left with
  generalize hkA : cipher.crypt (streamA sha1 secret skey) (helloBlock cryptoAll [] hsA) = kA
  generalize hkB : cipher.crypt (streamB sha1 secret skey) (replyBlock cryptoRc4 ++ hsB) = kB
  have hleft : (mseHandshakeInitiator sha1 dhA skey hsA).Follows 0
      (fun r s inp sc => (inp = [] ∧ sc = []) ∧ r = (.rc4, hsB) ∧ s.unread = [] ∧
        s.outgoing = some kA.2 ∧ s.incoming = some kB.2) a (dhB.pub ++ kB.1)
      [(178, dhA.pub), (82, hello sha1 secret skey cryptoAll [] hsA)] := by
    have hv : a.unread ++ (dhB.pub ++ kB.1) = dhB.pub ++
        ((cipher.crypt (streamB sha1 (dhA.computeSecret dhB.pub) skey)
          (replyBlock cryptoRc4 ++ hsB)).1 ++ []) := by
      rw [hS, hkB]
      simp [hau]
    rw [← hS]
    refine follows_tryCatch (follows_initiate ha hA dhB.pub_length hB hv (by simp)
      (Nat.zero_le _) fun s' inp' hs' hmse' => ?_)
    obtain ⟨hun, hinp⟩ := append_eq_nil_iff.mp hs'
    rw [hS, hkA, hkB] at hmse'
    exact ⟨⟨hinp, rfl⟩, rfl, hun, streams_of_rc4 hmse'⟩
  have hright : (acceptHandshake sha1 dhB skey hsB).Follows 0
      (fun r s inp sc => (inp = [] ∧ sc = []) ∧ r = some hsA ∧ s.unread = [] ∧
        s.outgoing = some kB.2 ∧ s.incoming = some kA.2) b
      (dhA.pub ++ hello sha1 secret skey cryptoAll [] hsA)
      [(124, dhB.pub), (0, (cipher.crypt (streamB sha1 secret skey) (replyBlock cryptoRc4)).1),
        (0, (cipher.crypt (cipher.crypt (streamB sha1 secret skey)
          (replyBlock cryptoRc4)).2 hsB).1)] := by
    have hv : b.unread ++ (dhA.pub ++ hello sha1 secret skey cryptoAll [] hsA) =
        dhA.pub ++ ([] ++ (hello sha1 secret skey cryptoAll [] hsA ++ [])) := by simp [hbu]
    rw [hsecret] at hv ⊢
    refine follows_acceptHandshake hb dhA.pub_length (firstAt_nil _) (by decide) (by decide) hA hv
      ?_ (Nat.zero_le _) hhead (by decide) fun s' inp' hs' hout hin => ?_
    · rw [length_hello hA]
      simp
    · obtain ⟨hun, hinp⟩ := append_eq_nil_iff.mp hs'
      rw [← hsecret] at hout hin
      rw [hkA] at hin
      rw [hkB] at hout
      exact ⟨⟨hinp, rfl⟩, rfl, hun, hout, hin⟩
  -- the two scripts fit together
  have hout : kB.1 = (cipher.crypt (streamB sha1 secret skey) (replyBlock cryptoRc4)).1 ++
      (cipher.crypt (cipher.crypt (streamB sha1 secret skey)
        (replyBlock cryptoRc4)).2 hsB).1 := by
    rw [← hkB, crypt_append]
  have hcompletes := completes_of_follows (by simpa [hout] using hleft) (by simpa using hright)
    (neverWait_handshake (length_hello hA) dhB.pub_length (by simp [replyBlock]) (by simp [hB]))
  refine hcompletes.mono ?_
  rintro ⟨r, s⟩ ⟨r', s'⟩ ⟨⟨_, hr, rfl, hun, hout, hin⟩, _, hr', rfl, hun', hout', hin'⟩
  exact ⟨hr, hr', hun, hun', kA.2, kB.2, hout, hin', hout', hin⟩

/-- **A public key that begins with `0x13`.** The acceptor takes it for a plain handshake, so that
    its side is never encrypted. -/
theorem not_completes_of_head {sha1 : Bytes → Bytes} {dhA dhB : DhKeyPair} {skey hsA hsB : Bytes}
    {a b : AsyncSocket} (hA : hsA.length = handshakeLen) (ha : a.mse = none) (hb : b.mse = none)
    (hbu : b.unread = []) (hhead : dhA.pub.head? = some 0x13) :
    ¬Duplex.Completes readChunkSize
      ⟨(mseHandshakeInitiator sha1 dhA skey hsA).run a, (acceptHandshake sha1 dhB skey hsB).run b,
        [], []⟩ (Agreed hsA hsB) := by
  intro hcompletes
  obtain ⟨data, k, hwrite, rfl⟩ : ∃ data k,
      (mseHandshakeInitiator sha1 dhA skey hsA).run a = .write data k ∧ data = dhA.pub := by
    rw [mseHandshakeInitiator, initiate, require, if_pos hA]
    refine ⟨_, _, rfl, ?_⟩
    rw [encryptOutgoing, encrypting_of_fresh ha]
  have hv : b.unread ++ dhA.pub = dhA.pub ++ [] := by rw [hbu, append_nil, nil_append]
  have hright : (acceptHandshake sha1 dhB skey hsB).Follows 0 (fun _ s _ _ => s.incoming = none)
      b dhA.pub [(0, hsB)] :=
    follows_acceptHandshake_head hb dhA.pub_length hhead hv (Nat.zero_le _) fun _ _ _ hin => hin
  have hsize : ∀ c ∈ [dhA.pub], 0 < c.length ∧ c.length ≤ readChunkSize := by
    rw [forall_mem_singleton, dhA.pub_length]
    decide
  obtain ⟨ws, r, s, cs', sc', hfeed, -, -, hin⟩ := hright.feed (append_nil _) hsize
  obtain ⟨steps, toRight, toLeft, hrun⟩ := Duplex.exists_run_right (k true) [] hfeed hsize
  have hrun' : runSteps (Duplex.step readChunkSize) (.left .write :: steps)
      ⟨.write dhA.pub k, (acceptHandshake sha1 dhB skey hsB).run b, [], []⟩ =
      some ⟨k true, .done (.ok r, s), toRight, toLeft⟩ := by
    rw [← hrun, flatten_singleton]
    rfl
  rw [hwrite] at hcompletes
  obtain ⟨_, -, -, -, -, _, _, -, hin', -⟩ := hcompletes.of_right_done hrun' rfl
  rw [hin] at hin'
  cases hin'

/-- A key pair whose public key begins with a given byte. Two of them share the exclusive or of their
    public keys. -/
def keyPairFrom (first : UInt8) : DhKeyPair where
  pub := first :: List.replicate 95 0
  computeSecret := xorBytes (first :: List.replicate 95 0)
  pub_length := rfl

theorem mseHandshake_completes_one :
    (keyPairFrom 1).pub.head? ≠ some 0x13 ∧
      ∀ sha1, Duplex.Completes readChunkSize
        ⟨(mseHandshakeInitiator sha1 (keyPairFrom 1) [7] (replicate 68 1)).run {},
          (acceptHandshake sha1 (keyPairFrom 0x13) [7] (replicate 68 2)).run {}, [], []⟩
        (Agreed (replicate 68 1) (replicate 68 2)) :=
  ⟨by decide, fun _ => mseHandshake_completes rfl rfl rfl rfl rfl rfl rfl (by decide)⟩

/-- The acceptor is done with 68 bytes, while the initiator waits for the rest of a public key. -/
theorem mseHandshake_stuck :
    (keyPairFrom 0x13).computeSecret (keyPairFrom 0).pub =
        (keyPairFrom 0).computeSecret (keyPairFrom 0x13).pub ∧
      (∃ k s, runSteps (Duplex.step readChunkSize)
          [.left .write, .right (.read 96), .right .write, .left (.read 68)]
          ⟨(mseHandshakeInitiator id (keyPairFrom 0x13) [7] (replicate 68 1)).run {},
            (acceptHandshake id (keyPairFrom 0) [7] (replicate 68 2)).run {}, [], []⟩ =
        some ⟨.read k, .done (.ok (some (0x13 :: replicate 67 0)), s), [], []⟩) ∧
      ¬Duplex.Completes readChunkSize
        ⟨(mseHandshakeInitiator id (keyPairFrom 0x13) [7] (replicate 68 1)).run {},
          (acceptHandshake id (keyPairFrom 0) [7] (replicate 68 2)).run {}, [], []⟩
        (Agreed (replicate 68 1) (replicate 68 2)) := by
  exact ⟨rfl, ⟨_, _, rfl⟩, not_completes_of_head rfl rfl rfl rfl rfl⟩

end AsyncSocket

end P2P
