import P2P.Spec.Handshake

/-!
# The acceptor and other implementations

The acceptor serves every initiator that offers RC4, but for a public key that begins like a plain
handshake, and padding that contains the sync hash.
-/

namespace P2P

open AsyncSocket List

/-- An initiator that follows the format: padding of less than 512 bytes, a method, and a handshake
    as payload. -/
structure Initiator where
  pub : Bytes
  padA : Bytes
  provide : UInt32
  padC : Bytes
  ia : Bytes
  pub_length : pub.length = dhKeySize
  padA_length : padA.length < maxPadSize
  offers : provide &&& cryptoRc4 ≠ 0 ∨ provide &&& cryptoPlaintext ≠ 0
  padC_length : padC.length < maxPadSize
  ia_length : ia.length = handshakeLen

namespace Initiator

variable (I : Initiator) (sha1 : Bytes → Bytes) (dh : DhKeyPair) (skey : Bytes)

def secret : Bytes := dh.computeSecret I.pub

/-- What it sends after its public key, up to the end of its handshake. -/
def secondMessage : Bytes := I.padA ++ hello sha1 (I.secret dh) skey I.provide I.padC I.ia

theorem length_secondMessage :
    (I.secondMessage sha1 dh skey).length = I.padA.length + I.padC.length + 124 := by
  have hia : I.ia.length = 68 := I.ia_length
  simp [secondMessage, hello, helloBlock, xorBytes, hia]
  omega

end Initiator

section

variable (E : HandshakeEnv) (I : Initiator)

/-- The reply enciphered as the format has it, and the stream after it. -/
def encipheredReply : Bytes × Rc4 :=
  Rc4.cipher.crypt (streamB E.sha1 (I.secret E.dh) E.infoHash) (replyBlock (selected I.provide))

/-- The acceptor's handshake after the reply, enciphered if RC4 has been selected, and the stream
    after it. -/
def payload : Bytes × Option Rc4 :=
  if selected I.provide = cryptoRc4 then
    let enciphered := Rc4.cipher.crypt (encipheredReply E I).2 E.myHandshake
    (enciphered.1, some enciphered.2)
  else (E.myHandshake, none)

/-- The stream of the bytes that follow the initiator's handshake. -/
def streamAfterHello : Option Rc4 :=
  if selected I.provide = cryptoRc4 then
    some (Rc4.cipher.crypt (streamA E.sha1 (I.secret E.dh) E.infoHash)
      (helloBlock I.provide I.padC I.ia)).2
  else none

/-- The acceptor serves the initiator whose bytes arrive in chunks: it has its handshake after the
    bytes of the exchange and no others, and has sent its key, the reply and its own handshake. -/
def Served (s : AsyncSocket) (cs : List Bytes) (later : Bytes) : Prop :=
  ∃ s' cs', (E.exchangeHandshakes.run s).feed cs =
      some ([E.dh.pub, (encipheredReply E I).1, (payload E I).1], (.ok (some I.ia), s'), cs') ∧
    s'.unread ++ cs'.flatten = later ∧ s'.outgoing = (payload E I).2 ∧
    s'.incoming = streamAfterHello E I

end

variable {E : HandshakeEnv} {I : Initiator} {s : AsyncSocket} {cs : List Bytes} {later : Bytes}

theorem exchangeHandshakes_inbound (hmse : E.mseEnabled = true) (hin : E.inbound = true) :
    E.exchangeHandshakes = acceptHandshake E.sha1 E.dh E.infoHash E.myHandshake := by
  simp [HandshakeEnv.exchangeHandshakes, hmse, hin]

theorem follows_acceptHandshake_plaintext {sha1 : Bytes → Bytes} {dh : DhKeyPair}
    {skey hs inp x : Bytes} {post : SocketM.Post (Option Bytes)}
    (hfresh : s.mse = none) (hplain : I.provide &&& cryptoRc4 = 0)
    (hhead : I.pub.head? ≠ some 0x13) (hfirst : FirstAt (syncHash sha1 (I.secret dh)) I.padA)
    (hx : x.length = handshakeLen)
    (hv : s.unread ++ inp = I.pub ++ (I.padA ++
      (hello sha1 (dh.computeSecret I.pub) skey I.provide I.padC I.ia ++ (x ++ later))))
    (h : ∀ s' inp', s'.unread ++ inp' = later → post (some x) s' inp' []) :
    (acceptHandshake sha1 dh skey hs).Follows 0 post s inp
      [(0, dh.pub), (0, replyBlock cryptoPlaintext), (0, hs)] := by
  have hselect : selected I.provide = cryptoPlaintext := by simp [selected, hplain]
  refine SocketM.Follows.bind (follows_accept hhead I.pub_length hv (Nat.zero_le _)
    fun s₁ inp₁ h₁ hmse₁ => ?_)
  refine follows_acceptEncrypted (hmse₁.trans hfresh) I.pub_length hfirst I.padA_length
    I.padC_length I.ia_length h₁ (Nat.zero_le _) (Nat.zero_le _) I.offers hselect
    (if_neg (by decide)) fun s₂ inp₂ h₂ hmse₂ => ?_
  -- the result is the one of a peer that has not negotiated at all
  have hclear : s₂.encrypting = none := by
    simp [encrypting, hmse₂, Option.filter, cryptoPlaintext, cryptoRc4]
  exact follows_plainHandshake hclear hx h₂ fun s₃ inp₃ h₃ _ => h s₃ inp₃ h₃

section

variable (hmse : E.mseEnabled = true) (hin : E.inbound = true) (hfresh : s.mse = none)
  (hunread : s.unread = [])
  (hcs : cs.flatten = I.pub ++ I.secondMessage E.sha1 E.dh E.infoHash ++ later)
  (hsize : ∀ c ∈ cs, 0 < c.length ∧ c.length ≤ readChunkSize)

include hmse hin hfresh hunread hcs hsize

theorem served_of_rc4 (hfirst : FirstAt (syncHash E.sha1 (I.secret E.dh)) I.padA)
    (hrc4 : I.provide &&& cryptoRc4 ≠ 0) (hhead : I.pub.head? ≠ some 0x13) :
    Served E I s cs later := by
  have hselect : selected I.provide = cryptoRc4 := if_pos hrc4
  have hv : s.unread ++ cs.flatten = I.pub ++ (I.padA ++
      (hello E.sha1 (E.dh.computeSecret I.pub) E.infoHash I.provide I.padC I.ia ++ later)) := by
    simp [hunread, hcs, Initiator.secondMessage, Initiator.secret]
  have hfollows : (acceptHandshake E.sha1 E.dh E.infoHash E.myHandshake).Follows 0
      (fun r s' inp' sc' => sc' = [] ∧ r = some I.ia ∧ s'.unread ++ inp' = later ∧
        s'.outgoing = (payload E I).2 ∧ s'.incoming = streamAfterHello E I)
      s cs.flatten
      [(0, E.dh.pub), (0, (encipheredReply E I).1), (0, (payload E I).1)] := by
    simp only [payload, encipheredReply, streamAfterHello, hselect, if_pos, Initiator.secret]
    refine follows_acceptHandshake hfresh I.pub_length hfirst I.padA_length I.padC_length
      I.ia_length hv (Nat.zero_le _) (Nat.zero_le _) hhead hrc4 fun s' inp' hs' hout hin' => ?_
    refine ⟨rfl, rfl, hs', ?_, hin'⟩
    rw [hout, StreamCipher.crypt_append_snd]
  obtain ⟨ws, r, s', cs', sc', hfeed, hws, -, rfl, rfl, hs', hout, hin'⟩ := hfollows.feed rfl hsize
  obtain rfl : _ = ws := by simpa using hws
  rw [← exchangeHandshakes_inbound hmse hin] at hfeed
  exact ⟨s', cs', hfeed, hs', hout, hin'⟩

/-- The key is taken for a plain handshake, and nothing but our own handshake is sent. -/
theorem not_served_of_head (hhead : I.pub.head? = some 0x13) : ¬ Served E I s cs later := by
  rintro ⟨s', cs', hfeed, -⟩
  have hv : s.unread ++ cs.flatten =
      I.pub ++ (I.secondMessage E.sha1 E.dh E.infoHash ++ later) := by
    rw [hunread, hcs, nil_append, append_assoc]
  have hfollows : (acceptHandshake E.sha1 E.dh E.infoHash E.myHandshake).Follows 0
      (fun _ _ _ sc' => sc' = []) s cs.flatten [(0, E.myHandshake)] :=
    follows_acceptHandshake_head hfresh I.pub_length hhead hv (Nat.zero_le _) fun _ _ _ _ => rfl
  obtain ⟨ws, r, s'', cs'', sc', hplain, hws, -⟩ := hfollows.feed rfl hsize
  rw [exchangeHandshakes_inbound hmse hin, hplain] at hfeed
  cases hfeed
  have hlength := congrArg length hws
  simp only [length_map, length_append, length_cons, length_nil] at hlength
  omega

/-- The 68 bytes after the exchange, which may still be to come, are taken for the handshake. -/
theorem not_served_of_plaintext (hfirst : FirstAt (syncHash E.sha1 (I.secret E.dh)) I.padA)
    (hplain : I.provide &&& cryptoRc4 = 0) (hhead : I.pub.head? ≠ some 0x13) :
    ¬ Served E I s cs later := by
  rintro ⟨s', cs', hfeed, hlater, -⟩
  -- with 68 more bytes there are enough of them
  have hmore := Coroutine.feed_append hfeed [replicate handshakeLen 0]
  generalize hpad : replicate handshakeLen (0 : UInt8) = pad at hmore
  have hpadLen : pad.length = handshakeLen := by rw [← hpad, length_replicate]
  have hv : s.unread ++ (cs ++ [pad]).flatten = I.pub ++ (I.padA ++
      (hello E.sha1 (E.dh.computeSecret I.pub) E.infoHash I.provide I.padC I.ia ++
        ((later ++ pad).take handshakeLen ++ (later ++ pad).drop handshakeLen))) := by
    rw [take_append_drop]
    simp [hunread, hcs, Initiator.secondMessage, Initiator.secret]
  have hfollows : (acceptHandshake E.sha1 E.dh E.infoHash E.myHandshake).Follows 0
      (fun _ s' inp' _ => s'.unread ++ inp' = (later ++ pad).drop handshakeLen) s
      (cs ++ [pad]).flatten
      [(0, E.dh.pub), (0, replyBlock cryptoPlaintext), (0, E.myHandshake)] :=
    follows_acceptHandshake_plaintext hfresh hplain hhead hfirst
      (length_take_of_le (by rw [length_append]; omega)) hv fun _ _ hs' => hs'
  obtain ⟨ws, r, s'', cs'', sc', hfeed', -, -, hs'⟩ := hfollows.feed rfl fun c hc => by
    obtain hc | hc := mem_append.mp hc
    · exact hsize c hc
    · rw [mem_singleton.mp hc, hpadLen]
      decide
  rw [← exchangeHandshakes_inbound hmse hin, hmore] at hfeed'
  cases hfeed'
  have hlength := congrArg length hs'
  rw [flatten_append, ← append_assoc, hlater] at hlength
  simp [hpadLen, handshakeLen] at hlength

end

/-- **Which initiators are served.** However the bytes of an initiator arrive, and whatever follows
    them, an inbound connection serves it exactly if it offers RC4 and its public key does not begin
    with `0x13`, unless the sync hash is found in the padding by accident. -/
theorem exchangeHandshakes_served (hmse : E.mseEnabled = true) (hin : E.inbound = true)
    (hfresh : s.mse = none) (hunread : s.unread = [])
    (hfirst : FirstAt (syncHash E.sha1 (I.secret E.dh)) I.padA)
    (hcs : cs.flatten = I.pub ++ I.secondMessage E.sha1 E.dh E.infoHash ++ later)
    (hsize : ∀ c ∈ cs, 0 < c.length ∧ c.length ≤ readChunkSize) :
    Served E I s cs later ↔ I.provide &&& cryptoRc4 ≠ 0 ∧ I.pub.head? ≠ some 0x13 := by
  constructor
  · intro hserved
    have hhead : I.pub.head? ≠ some 0x13 := fun h =>
      not_served_of_head hmse hin hfresh hunread hcs hsize h hserved
    refine ⟨fun h => ?_, hhead⟩
    exact not_served_of_plaintext hmse hin hfresh hunread hcs hsize hfirst h hhead hserved
  · rintro ⟨hrc4, hhead⟩
    exact served_of_rc4 hmse hin hfresh hunread hcs hsize hfirst hrc4 hhead

def initiatorOffering (provide : UInt32)
    (h : provide &&& cryptoRc4 ≠ 0 ∨ provide &&& cryptoPlaintext ≠ 0) : Initiator where
  pub := 1 :: List.replicate 95 0
  padA := []
  provide := provide
  padC := []
  ia := List.replicate 68 3
  pub_length := rfl
  padA_length := by decide
  offers := h
  padC_length := by decide
  ia_length := rfl

def inboundEnv : HandshakeEnv where
  sha1 := id
  dh := keyPairFrom 0
  infoHash := List.replicate 20 7
  myId := List.replicate 20 8
  mseEnabled := true
  inbound := true
  completedPieces := 0
  numPieces := 0
  haveBitfield := []

section

variable (I : Initiator) (E : HandshakeEnv)

theorem chunks_size {later : Bytes} (hlater : 0 < later.length ∧ later.length ≤ readChunkSize) :
    ∀ c ∈ [I.pub, I.secondMessage E.sha1 E.dh E.infoHash, later],
      0 < c.length ∧ c.length ≤ readChunkSize := by
  intro c hc
  rw [mem_cons, mem_cons, mem_singleton] at hc
  obtain rfl | rfl | rfl := hc
  · rw [I.pub_length]
    decide
  · have hA := I.padA_length
    have hC := I.padC_length
    unfold maxPadSize at hA hC
    rw [Initiator.length_secondMessage, readChunkSize]
    omega
  · exact hlater

end

theorem exchangeHandshakes_served_both :
    let I := initiatorOffering cryptoAll (by decide)
    let E := inboundEnv
    Served E I {} [I.pub, I.secondMessage E.sha1 E.dh E.infoHash, [5, 6]] [5, 6] := by
  intro I E
  refine (exchangeHandshakes_served rfl rfl rfl rfl (firstAt_nil _) ?_
    (chunks_size I E (by decide))).mpr (by decide)
  simp

/-- An initiator that offers only the plain method: 68 bytes of its first messages are taken for its
    handshake. -/
theorem exchangeHandshakes_plaintext_wrong :
    let I := initiatorOffering cryptoPlaintext (by decide)
    let E := inboundEnv
    ¬ Served E I {} [I.pub, I.secondMessage E.sha1 E.dh E.infoHash, replicate 68 4]
      (replicate 68 4) := by
  intro I E
  refine not_served_of_plaintext rfl rfl rfl rfl ?_ (chunks_size I E (by decide)) (firstAt_nil _)
    (by decide) (by decide)
  simp

end P2P
