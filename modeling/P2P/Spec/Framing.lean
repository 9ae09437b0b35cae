import P2P.Native.AsyncSocket

/-!
# Framing: what is sent is received

The messages passed to `send_message` are those that `receive_message` returns on the other end,
however the bytes are cut into chunks, in the clear and under RC4.
-/

namespace P2P

open StreamCipher List

/-! ## Words in network byte order -/

@[simp] theorem length_hostToNetworkLong (n : UInt32) : (hostToNetworkLong n).length = 4 := rfl

theorem networkToHostLong_hostToNetworkLong (n : UInt32) (rest : Bytes) :
    networkToHostLong (hostToNetworkLong n ++ rest) 0 = n := by
  apply UInt32.eq_of_toBitVec_eq
  simp only [networkToHostLong, hostToNetworkLong, drop_zero, cons_append,
    nil_append, take_succ_cons, take_zero, foldl_cons, foldl_nil,
    UInt32.toBitVec_or, UInt32.toBitVec_shiftLeft, UInt32.toBitVec_shiftRight,
    UInt8.toBitVec_toUInt32, UInt32.toBitVec_toUInt8]
  -- bit by bit: bit `i` is in byte `i / 8` from the end
  ext i hi
  have hbit := BitVec.getLsbD_eq_getElem (x := n.toBitVec) hi
  obtain h | h | h | h : i / 8 = 0 ∨ i / 8 = 1 ∨ i / 8 = 2 ∨ i / 8 = 3 := by omega
  · have h0 : i < 8 := by omega
    simp [h0, hbit]
  · have h1 : ¬ i < 8 := by omega
    have h2 : i - 8 < 8 := by omega
    have e : 8 + (i - 8) = i := by omega
    simp [h1, h2, e, hbit]
  · have h1 : ¬ i < 8 := by omega
    have h2 : ¬ i - 8 < 8 := by omega
    have h3 : i - 8 - 8 < 8 := by omega
    have e : 16 + (i - 8 - 8) = i := by omega
    simp [h1, h2, h3, e, hbit]
  · have h1 : ¬ i < 8 := by omega
    have h2 : ¬ i - 8 < 8 := by omega
    have h3 : ¬ i - 8 - 8 < 8 := by omega
    have h4 : i - 8 - 8 - 8 < 8 := by omega
    have e : 24 + (i - 8 - 8 - 8) = i := by omega
    simp [h1, h2, h3, h4, e, hbit]

/-! ## Operations of a socket on a given input -/

namespace SocketM

variable {α β : Type}

/-- A condition on a result, the socket, the rest of the input and the rest of the script. -/
abbrev Post (α : Type) : Type := α → AsyncSocket → Bytes → Script UInt8 → Prop

/-- The operation does not throw, and what it does on the input follows the script. -/
def Follows (last : Nat) (post : Post α) (m : SocketM α) (s : AsyncSocket) (inp : Bytes)
    (sc : Script UInt8) : Prop :=
  (m.run s).Follows readChunkSize last
    (fun r inp sc => ∃ a, r.1 = .ok a ∧ post a r.2 inp sc) inp sc

variable {last : Nat} {s : AsyncSocket} {inp : Bytes} {sc : Script UInt8} {post : Post α}

theorem follows_pure {a : α} (h : post a s inp sc) : Follows last post (pure a) s inp sc :=
  ⟨a, rfl, h⟩

theorem Follows.bind {m : SocketM β} {f : β → SocketM α}
    (h : Follows last (fun b s inp sc => Follows last post (f b) s inp sc) m s inp sc) :
    Follows last post (m >>= f) s inp sc := by
  refine Coroutine.follows_bind.mpr (Coroutine.Follows.mono h ?_)
  rintro ⟨r, s'⟩ inp' sc' ⟨b, hb, hf⟩
  obtain rfl : r = .ok b := hb
  exact hf

theorem follows_modify {g : AsyncSocket → β × AsyncSocket} {f : β → SocketM α}
    (h : Follows last post (f (g s).1) (g s).2 inp sc) :
    Follows last post (modify g >>= f) s inp sc :=
  Follows.bind ⟨(g s).1, rfl, h⟩

theorem bind_pure (m : SocketM α) : m >>= pure = m := by
  have hnext : ∀ r, next (pure : α → SocketM α) r = .done r := by
    rintro ⟨_ | _, _⟩ <;> rfl
  have hbind : ∀ c : Coroutine UInt8 (Except SocketError α × AsyncSocket),
      c.bind (next pure) = c := fun c => by
    induction c with
    | done r => exact hnext r
    | read k ih => exact congrArg Coroutine.read (funext ih)
    | write data k ih => exact congrArg (Coroutine.write data) (funext ih)
    | connect k ih => exact congrArg Coroutine.connect (funext ih)
  obtain ⟨run⟩ := m
  exact congrArg SocketM.mk (funext fun s => hbind (run s))

theorem Follows.feed {m : SocketM α} (h : Follows last post m s inp sc) {cs : List Bytes}
    (hcs : cs.flatten = inp) (hsize : ∀ c ∈ cs, 0 < c.length ∧ c.length ≤ readChunkSize) :
    ∃ ws a s' cs' sc', (m.run s).feed cs = some (ws, (.ok a, s'), cs') ∧
      sc.map Prod.snd = ws ++ sc'.map Prod.snd ∧
      (∀ c ∈ cs', 0 < c.length ∧ c.length ≤ readChunkSize) ∧ post a s' cs'.flatten sc' := by
  obtain ⟨ws, ⟨r, s'⟩, cs', sc', hfeed, hws, hsize', a, hr, hpost⟩ :=
    Coroutine.Follows.feed h hcs hsize
  obtain rfl : r = .ok a := hr
  exact ⟨ws, a, s', cs', sc', hfeed, hws, hsize', hpost⟩

end SocketM

namespace AsyncSocket

open SocketM

variable {α : Type} {last : Nat} {s : AsyncSocket} {inp : Bytes} {sc : Script UInt8} {post : Post α}

@[simp] theorem append_mse (s : AsyncSocket) (chunk : Bytes) : (s.append chunk).mse = s.mse := by
  unfold append
  split <;> rfl

@[simp] theorem unread_append (s : AsyncSocket) (chunk : Bytes) :
    (s.append chunk).unread = s.unread ++ chunk := by
  have hpos := s.pos_le
  unfold append unread
  split
  · simp [drop_append_of_le_length hpos]
  · exact drop_append_of_le_length hpos

@[simp] theorem unread_advance (s : AsyncSocket) (n : Nat) :
    (s.advance n).unread = s.unread.drop n := by
  change s.readBuf.drop (min (s.readPos + n) s.readBuf.length) = (s.readBuf.drop s.readPos).drop n
  rw [drop_drop]
  obtain h | h := Nat.le_total (s.readPos + n) s.readBuf.length
  · rw [Nat.min_eq_left h]
  · rw [Nat.min_eq_right h, drop_length, drop_eq_nil_of_le h]

/-! ### Reading -/

theorem follows_fillLoop {need fuel : Nat} {post : Post Unit}
    (hfuel : need - s.unread.length ≤ fuel)
    (hneed : need + sc.bound last ≤ (s.unread ++ inp).length)
    (h : ∀ s' inp', s'.unread ++ inp' = s.unread ++ inp → need ≤ s'.unread.length →
      s'.mse = s.mse → post () s' inp' sc) : Follows last post (fillLoop need fuel) s inp sc := by
  -- the bytes that are missing become fewer with every chunk
  induction fuel generalizing s inp with
  | zero => exact follows_pure (h s inp rfl (by omega) rfl)
  | succ fuel ih =>
    by_cases hhave : need ≤ s.unread.length
    · simp only [Follows, fillLoop, if_pos hhave]
      exact ⟨(), rfl, h s inp rfl hhave rfl⟩
    · simp only [Follows, fillLoop, if_neg hhave]
      refine ⟨by rw [length_append] at hneed; omega, fun n hpos _ hn => ?_⟩
      obtain ⟨b, bs, htake⟩ : ∃ b bs, inp.take n = b :: bs :=
        exists_cons_of_length_pos (by rw [length_take]; omega)
      rw [htake]
      have hun : (s.append (b :: bs)).unread ++ inp.drop n = s.unread ++ inp := by
        rw [unread_append, ← htake, append_assoc, take_append_drop]
      refine ih ?_ (by rw [hun]; exact hneed) fun s' inp' hs' hlen hmse => ?_
      · simp only [unread_append, List.length_append, List.length_cons]
        omega
      · exact h s' inp' (hs'.trans hun) hlen (hmse.trans (append_mse ..))

/-- **`fill_buffer` makes bytes available and leaves what is yet to be consumed.** -/
theorem follows_fillBuffer {need : Nat} {post : Post Unit}
    (hneed : need + sc.bound last ≤ (s.unread ++ inp).length)
    (h : ∀ s' inp', s'.unread ++ inp' = s.unread ++ inp → need ≤ s'.unread.length →
      s'.mse = s.mse → post () s' inp' sc) : Follows last post (fillBuffer need) s inp sc :=
  follows_fillLoop le_rfl hneed h

theorem follows_consumeBytes {x y : Bytes} {n : Nat} {f : Bytes → SocketM α}
    (hxy : s.unread ++ inp = x ++ y) (hx : x.length = n) (hn : n ≤ s.unread.length)
    (h : ∀ s', s'.unread ++ inp = y → s'.mse = s.mse → Follows last post (f x) s' inp sc) :
    Follows last post (consumeBytes n >>= f) s inp sc := by
  have htake : s.unread.take n = x := by
    have hall : (s.unread ++ inp).take n = s.unread.take n := take_append_of_le_length hn
    rw [← hall, hxy, take_left' hx]
  have hdrop : s.unread.drop n ++ inp = y := by
    rw [← drop_append_of_le_length hn, hxy, drop_left' hx]
  refine follows_modify ?_
  dsimp only
  rw [htake]
  refine h (s.advance n) ?_ rfl
  rw [unread_advance, hdrop]

theorem follows_fill_consume {x y : Bytes} {n : Nat} {f : Bytes → SocketM α}
    (hxy : s.unread ++ inp = x ++ y) (hx : x.length = n) (hb : sc.bound last ≤ y.length)
    (h : ∀ s' inp', s'.unread ++ inp' = y → s'.mse = s.mse → Follows last post (f x) s' inp' sc) :
    Follows last post (fillBuffer n >>= fun _ => consumeBytes n >>= f) s inp sc := by
  refine Follows.bind (follows_fillBuffer ?_ fun s₁ inp₁ h₁ hlen hmse₁ => ?_)
  · rw [hxy, length_append]
    omega
  · exact follows_consumeBytes (h₁.trans hxy) hx hlen fun s₂ h₂ hmse₂ =>
      h s₂ inp₁ h₂ (hmse₂.trans hmse₁)

/-! ### The streams in use -/

def incoming (s : AsyncSocket) : Option Rc4 := s.encrypting.map MseCrypto.decrypt

def outgoing (s : AsyncSocket) : Option Rc4 := s.encrypting.map MseCrypto.encrypt

/-- RC4 where it may also not be in use. -/
abbrev wireCipher : StreamCipher (Option Rc4) UInt8 := Rc4.cipher.optional

/-- What the socket has yet to consume deciphers to `plain`, with `later` after it. -/
def Awaits (s : AsyncSocket) (inp plain later : Bytes) : Prop :=
  s.unread ++ inp = (wireCipher.crypt s.incoming plain).1 ++ later

theorem incoming_congr {s s' : AsyncSocket} (h : s'.mse = s.mse) : s'.incoming = s.incoming := by
  simp only [incoming, encrypting, h]

theorem outgoing_congr {s s' : AsyncSocket} (h : s'.mse = s.mse) : s'.outgoing = s.outgoing := by
  simp only [outgoing, encrypting, h]

theorem encrypting_eq_some {c : MseCrypto} (h : s.encrypting = some c) :
    s.mse = some c ∧ c.active = true ∧ c.rc4 = true := by
  rw [encrypting, Option.filter_eq_some_iff] at h
  simpa using h

theorem follows_decryptIncoming {data : Bytes} {f : Bytes → SocketM α}
    (h : ∀ s', s'.unread = s.unread → s'.outgoing = s.outgoing →
      s'.incoming = (wireCipher.crypt s.incoming data).2 →
      Follows last post (f (wireCipher.crypt s.incoming data).1) s' inp sc) :
    Follows last post (decryptIncoming data >>= f) s inp sc := by
  refine follows_modify ?_
  cases hc : s.encrypting with
  | none =>
    have hin : s.incoming = none := by rw [incoming, hc]; rfl
    rw [hin, optional_crypt_none] at h
    exact h s rfl rfl hin
  | some c =>
    obtain ⟨hmse, hact, hrc4⟩ := encrypting_eq_some hc
    have hin : s.incoming = some c.decrypt := by rw [incoming, hc]; rfl
    rw [hin, optional_crypt_some] at h
    refine h _ rfl ?_ ?_
    · simp [outgoing, encrypting, hmse, hact, hrc4, Option.filter]
    · simp [incoming, encrypting, hact, hrc4, Option.filter, Rc4.crypt]

/-- **Receiving takes the first bytes off what is yet to be consumed**, deciphered, also when more
    was enciphered with them. -/
theorem follows_receive {x y later : Bytes} {n : Nat} {f : Bytes → SocketM α}
    (hw : s.Awaits inp (x ++ y) later) (hx : x.length = n)
    (hb : sc.bound last ≤ y.length + later.length)
    (h : ∀ s' inp', s'.Awaits inp' y later → s'.outgoing = s.outgoing →
      s'.incoming = (wireCipher.crypt s.incoming x).2 → Follows last post (f x) s' inp' sc) :
    Follows last post
      (fillBuffer n >>= fun _ => consumeBytes n >>= fun out => decryptIncoming out >>= f)
      s inp sc := by
  rw [Awaits, crypt_append, append_assoc] at hw
  refine follows_fill_consume hw (by rw [length_crypt, hx]) ?_
    fun s₁ inp₁ h₁ hmse => ?_
  · rw [length_append, length_crypt]
    exact hb
  · refine follows_decryptIncoming fun s₂ hun hout hin => ?_
    rw [incoming_congr hmse, crypt_crypt] at hin ⊢
    refine h s₂ inp₁ ?_ (hout.trans (outgoing_congr hmse)) hin
    rw [Awaits, hun, h₁, hin]

theorem follows_receiveRaw {x y later : Bytes}
    {post : Post Bytes} (hw : s.Awaits inp (x ++ y) later)
    (hb : sc.bound last ≤ y.length + later.length)
    (h : ∀ s' inp', s'.Awaits inp' y later → s'.outgoing = s.outgoing →
      s'.incoming = (wireCipher.crypt s.incoming x).2 → post x s' inp' sc) :
    Follows last post (receiveRaw x.length) s inp sc := by
  have hraw : receiveRaw x.length = fillBuffer x.length >>= fun _ =>
      consumeBytes x.length >>= fun out => decryptIncoming out >>= pure := by
    simp only [receiveRaw, bind_pure]
  rw [hraw]
  exact follows_receive hw rfl hb fun s' inp' hw' hout hin => follows_pure (h s' inp' hw' hout hin)

/-! ### Writing -/

theorem encryptOutgoing_spec (s : AsyncSocket) (data : Bytes) :
    (s.encryptOutgoing data).1 = (wireCipher.crypt s.outgoing data).1 ∧
      (s.encryptOutgoing data).2.outgoing = (wireCipher.crypt s.outgoing data).2 ∧
      (s.encryptOutgoing data).2.incoming = s.incoming ∧
      (s.encryptOutgoing data).2.unread = s.unread := by
  unfold encryptOutgoing
  cases hc : s.encrypting with
  | none =>
    have hout : s.outgoing = none := by rw [outgoing, hc]; rfl
    simp [hout]
  | some c =>
    obtain ⟨hmse, hact, hrc4⟩ := encrypting_eq_some hc
    have hout : s.outgoing = some c.encrypt := by rw [outgoing, hc]; rfl
    have hin : s.incoming = some c.decrypt := by rw [incoming, hc]; rfl
    rw [hout, hin, optional_crypt_some]
    refine ⟨rfl, ?_, ?_, rfl⟩
    · simp [outgoing, encrypting, hact, hrc4, Option.filter, Rc4.crypt]
    · simp [incoming, encrypting, hact, hrc4, Option.filter]

theorem follows_enqueueWrite {data : Bytes} {r : Nat} {f : Unit → SocketM α}
    (h : ∀ s', s'.unread = s.unread → s'.incoming = s.incoming →
      s'.outgoing = (wireCipher.crypt s.outgoing data).2 → Follows last post (f ()) s' inp sc) :
    Follows last post (enqueueWrite data >>= f) s inp
      ((r, (wireCipher.crypt s.outgoing data).1) :: sc) := by
  obtain ⟨hdata, hout, hin, hun⟩ := encryptOutgoing_spec s data
  exact Follows.bind ⟨r, sc, by rw [hdata], (), rfl, h _ hun hin hout⟩

/-! ### Messages -/

theorem frame_eq (m : Bytes) : frame m = hostToNetworkLong (UInt32.ofNat m.length) ++ m := by
  unfold frame
  split
  · subst_vars
    rfl
  · rfl

theorem follows_receiveMessage {m rest later : Bytes} {f : Bytes → SocketM α}
    (hm : m.length ≤ maxMessageSize) (hw : s.Awaits inp (frame m ++ rest) later)
    (hb : sc.bound last ≤ rest.length + later.length)
    (h : ∀ s' inp', s'.Awaits inp' rest later → s'.outgoing = s.outgoing →
      s'.incoming = (wireCipher.crypt s.incoming (frame m)).2 →
      Follows last post (f m) s' inp' sc) : Follows last post (receiveMessage >>= f) s inp sc := by
  have hlen : (UInt32.ofNat m.length).toNat = m.length := by
    rw [UInt32.toNat_ofNat', Nat.mod_eq_of_lt]
    unfold maxMessageSize at hm
    omega
  rw [frame_eq, append_assoc] at hw
  refine Follows.bind (follows_receive hw rfl ?_ fun s₁ inp₁ hw₁ hout₁ hin₁ => ?_)
  · rw [length_append]
    omega
  · have hnet := networkToHostLong_hostToNetworkLong (UInt32.ofNat m.length) []
    rw [append_nil] at hnet
    rw [hnet, hlen, if_neg (Nat.not_lt.mpr hm)]
    by_cases hnil : m = []
    · subst hnil
      exact follows_pure (h s₁ inp₁ hw₁ hout₁ hin₁)
    · rw [if_neg (mt length_eq_zero_iff.mp hnil)]
      refine follows_receiveRaw hw₁ hb fun s₂ inp₂ hw₂ hout₂ hin₂ => ?_
      refine h s₂ inp₂ hw₂ (hout₂.trans hout₁) ?_
      rw [hin₂, hin₁, frame_eq, crypt_append]

def frames (ms : List Bytes) : Bytes := (ms.map frame).flatten

def sendScript : Option Rc4 → List Bytes → Script UInt8
  | _, [] => []
  | c, m :: ms =>
    (0, (wireCipher.crypt c (frame m)).1) :: sendScript (wireCipher.crypt c (frame m)).2 ms

theorem output_sendScript (c : Option Rc4) (ms : List Bytes) :
    (sendScript c ms).output = (wireCipher.crypt c (frames ms)).1 := by
  induction ms generalizing c with
  | nil => rfl
  | cons m ms ih =>
    have hframes : frames (m :: ms) = frame m ++ frames ms := rfl
    rw [sendScript, Script.output_cons, ih, hframes, crypt_append]

theorem follows_sendMessages {ms : List Bytes}
    {post : Post Unit}
    (h : ∀ s', s'.outgoing = (wireCipher.crypt s.outgoing (frames ms)).2 → post () s' inp []) :
    Follows last post (sendMessages ms) s inp (sendScript s.outgoing ms) := by
  induction ms generalizing s with
  | nil => exact follows_pure (h s rfl)
  | cons m ms ih =>
    have hframes : frames (m :: ms) = frame m ++ frames ms := rfl
    rw [hframes, crypt_append] at h
    refine follows_enqueueWrite fun s' _ _ hs' => ?_
    rw [← hs'] at h ⊢
    exact ih h

theorem follows_receiveMessages {ms : List Bytes} (hms : ∀ m ∈ ms, m.length ≤ maxMessageSize)
    {post : Post (List Bytes)}
    (hw : s.Awaits inp (frames ms) [])
    (h : ∀ s' inp', s'.Awaits inp' [] [] →
      s'.incoming = (wireCipher.crypt s.incoming (frames ms)).2 → post ms s' inp' []) :
    Follows 0 post (receiveMessages ms.length) s inp [] := by
  induction ms generalizing s inp post with
  | nil => exact follows_pure (h s inp hw rfl)
  | cons m ms ih =>
    have hframes : frames (m :: ms) = frame m ++ frames ms := rfl
    rw [hframes] at hw h
    refine follows_receiveMessage (hms m (mem_cons_self ..)) hw (Nat.zero_le _)
      fun s₁ inp₁ hw₁ _ hin₁ => Follows.bind ?_
    refine ih (fun m' hm' => hms m' (mem_cons_of_mem _ hm')) hw₁ fun s₂ inp₂ hw₂ hin₂ => ?_
    refine follows_pure (h s₂ inp₂ hw₂ ?_)
    rw [hin₂, hin₁, crypt_append]

/-- **What is sent is received.** Whatever chunks the frames of messages arrive in, as many calls of
    `receive_message` return these messages in this order. -/
theorem receiveMessages_sendMessages {sender receiver : AsyncSocket}
    (hunread : receiver.unread = []) (hstream : receiver.incoming = sender.outgoing)
    {ms : List Bytes} (hms : ∀ m ∈ ms, m.length ≤ maxMessageSize) :
    ∃ ws sender', ((sendMessages ms).run sender).feed [] = some (ws, (.ok (), sender'), []) ∧
      ∀ cs : List Bytes, cs.flatten = ws.flatten →
        (∀ c ∈ cs, 0 < c.length ∧ c.length ≤ readChunkSize) →
        ∃ receiver', ((receiveMessages ms.length).run receiver).feed cs =
            some ([], (.ok ms, receiver'), []) ∧
          receiver'.unread = [] ∧ receiver'.incoming = sender'.outgoing := by
  have hsend : Follows 0
      (fun _ s' inp' sc' => s'.outgoing = (wireCipher.crypt sender.outgoing (frames ms)).2 ∧
        inp' = [] ∧ sc' = [])
      (sendMessages ms) sender [] (sendScript sender.outgoing ms) :=
    follows_sendMessages fun s' hs' => ⟨hs', rfl, rfl⟩
  obtain ⟨ws, ⟨⟩, sender', cs', sc', hfeed, hws, hsize', hout, hnil, rfl⟩ :=
    hsend.feed flatten_nil (by simp)
  obtain rfl := Coroutine.chunks_eq_nil hnil hsize'
  refine ⟨ws, sender', hfeed, fun cs hcs hsize => ?_⟩
  have hwire : cs.flatten = (wireCipher.crypt receiver.incoming (frames ms)).1 := by
    rw [hcs, hstream, ← output_sendScript, Script.output, hws]
    simp
  have hreceive : Follows 0
      (fun ms' s' inp' sc' => ms' = ms ∧ sc' = [] ∧ s'.unread ++ inp' = [] ∧
        s'.incoming = (wireCipher.crypt receiver.incoming (frames ms)).2)
      (receiveMessages ms.length) receiver cs.flatten [] := by
    refine follows_receiveMessages hms ?_ fun s' inp' hw' hin => ⟨rfl, rfl, hw', hin⟩
    rw [Awaits, hunread, hwire, append_nil]
    rfl
  obtain ⟨ws', ms', receiver', cs', sc', hfeed', hws', hsize', rfl, rfl, hnil', hin⟩ :=
    hreceive.feed rfl hsize
  obtain ⟨hun, hleft⟩ := append_eq_nil_iff.mp hnil'
  obtain rfl := Coroutine.chunks_eq_nil hleft hsize'
  obtain rfl : ws' = [] := by simpa using hws'.symm
  exact ⟨receiver', hfeed', hun, by rw [hin, hout, hstream]⟩

theorem receiveMessages_sendMessages_three :
    let k := (Rc4.init [1, 2, 3]).toOption.getD {}
    let s : AsyncSocket := { mse := some ⟨true, true, k, k⟩ }
    s.unread = [] ∧ s.incoming = s.outgoing ∧
      ∃ ws s', ((sendMessages [[1, 2], [], [3]]).run s).feed [] = some (ws, (.ok (), s'), []) ∧
        ∀ cs : List Bytes, cs.flatten = ws.flatten →
          (∀ c ∈ cs, 0 < c.length ∧ c.length ≤ readChunkSize) →
          ∃ r, ((receiveMessages 3).run s).feed cs = some ([], (.ok [[1, 2], [], [3]], r), []) ∧
            r.unread = [] ∧ r.incoming = s'.outgoing :=
  ⟨rfl, rfl, receiveMessages_sendMessages rfl rfl (by decide)⟩

end AsyncSocket

end P2P
