import P2P.Spec.Handshake

/-!
# The plain handshake after a failed negotiation

When the negotiation of an outbound connection fails, `perform_handshake` connects again and makes
the plain handshake.
-/

namespace P2P

open AsyncSocket SocketM List
open Coroutine (resume resume_bind)

/-! ## Every end of an operation -/

namespace SocketM

variable {α β : Type} {fail : AsyncSocket → Bytes → Bool → Prop}
  {post : α → AsyncSocket → Bytes → Bool → Prop} {s : AsyncSocket} {inp : Bytes} {ok : Bool}

/-- However the operation goes: `fail` holds where it throws and `post` where it returns, of the
    socket, what has been read and whether all has been written. -/
def Ends (fail : AsyncSocket → Bytes → Bool → Prop)
    (post : α → AsyncSocket → Bytes → Bool → Prop) (m : SocketM α) (s : AsyncSocket) (inp : Bytes)
    (ok : Bool) : Prop :=
  (m.run s).Ends (fun r inp ok => r.1.rec (fun _ => fail r.2 inp ok) fun a => post a r.2 inp ok)
    inp ok

theorem Ends.bind {m : SocketM β} {f : β → SocketM α}
    (h : Ends fail (fun b s inp ok => Ends fail post (f b) s inp ok) m s inp ok) :
    Ends fail post (m >>= f) s inp ok := by
  refine Coroutine.Ends.bind (Coroutine.Ends.mono h ?_)
  rintro ⟨r, s'⟩ inp' ok' h'
  cases r with
  | error e => exact h'
  | ok b => exact h'

theorem ends_modify {g : AsyncSocket → β × AsyncSocket} {f : β → SocketM α}
    (h : Ends fail post (f (g s).1) (g s).2 inp ok) : Ends fail post (modify g >>= f) s inp ok :=
  Ends.bind h

end SocketM

namespace AsyncSocket

variable {α : Type} {fail : AsyncSocket → Bytes → Bool → Prop}
  {post : α → AsyncSocket → Bytes → Bool → Prop} {s : AsyncSocket} {inp used : Bytes} {ok : Bool}
  {f : Unit → SocketM α} {need n : Nat} {what timeout : String}

theorem ends_require {p : Prop} [Decidable p] (hok : p → Ends fail post (f ()) s inp ok)
    (hfail : ¬ p → fail s inp ok) : Ends fail post (require p what >>= f) s inp ok := by
  unfold require
  refine Ends.bind ?_
  split
  · next h => exact hok h
  · next h => exact hfail h

theorem ends_sendRaw {data : Bytes} (hplain : s.encrypting = none)
    (hok : Ends fail post (f ()) s inp ok) (hfail : fail s inp false) :
    Ends fail post (sendRaw data >>= f) s inp ok := by
  have henc : s.encryptOutgoing data = (data, s) := by
    unfold encryptOutgoing
    rw [hplain]
  refine Ends.bind fun w => ?_
  rw [henc]
  cases w with
  | true => rwa [Bool.and_true]
  | false => rwa [Bool.and_false]

/-- The bytes read are those consumed and those unread. -/
theorem ends_fillLoop {fuel : Nat} {post : Unit → AsyncSocket → Bytes → Bool → Prop}
    (hfuel : need - s.unread.length ≤ fuel) (hinp : inp = used ++ s.unread)
    (hok : ∀ s', s'.mse = s.mse → need ≤ s'.unread.length → post () s' (used ++ s'.unread) ok)
    (hfail : ∀ s', s'.unread.length < need → s.unread <+: s'.unread →
      fail s' (used ++ s'.unread) ok) :
    Ends fail post (fillLoop need fuel) s inp ok := by
  induction fuel generalizing s inp with
  | zero => exact hinp ▸ hok s rfl (by omega)
  | succ fuel ih =>
    by_cases hhave : need ≤ s.unread.length
    · simp only [Ends, fillLoop, if_pos hhave]
      exact hinp ▸ hok s rfl hhave
    · have hnothing : fail s (inp ++ []) ok := by
        rw [append_nil, hinp]
        exact hfail s (by omega) (prefix_refl _)
      simp only [Ends, fillLoop, if_neg hhave]
      intro x
      cases x with
      | closed | expired => exact hnothing
      | chunk c =>
        cases c with
        | nil => exact hnothing
        | cons b bs =>
          refine ih ?_ (by simp [hinp, Arrival.symbols])
            (fun s' hmse => hok s' (hmse.trans (append_mse ..)))
            fun s' hlen hpre => hfail s' hlen ?_
          · simp only [unread_append, length_append, length_cons]
            omega
          · rw [unread_append] at hpre
            exact (prefix_append ..).trans hpre

theorem ends_fillBefore (hinp : inp = used ++ s.unread)
    (hok : ∀ s', s'.mse = s.mse → need ≤ s'.unread.length →
      Ends fail post (f ()) s' (used ++ s'.unread) ok)
    (hfail : ∀ s', s'.unread.length < need → s.unread <+: s'.unread →
      fail s' (used ++ s'.unread) ok) :
    Ends fail post (fillBefore need timeout >>= f) s inp ok := by
  have hfill : Ends (fun s' inp' ok' => fail s' inp' ok')
      (fun _ s' inp' ok' => Ends fail post (f ()) s' inp' ok') (fillBuffer need) s inp ok :=
    ends_fillLoop (Nat.le_refl _) hinp hok hfail
  refine Ends.bind (Ends.bind (Coroutine.Ends.bind (Coroutine.Ends.mono hfill ?_)))
  rintro ⟨r, s'⟩ inp' ok' h'
  -- an error is one of the deadline
  cases r with
  | error e => exact h'
  | ok a => exact h'

theorem ends_consumeBytes {f : Bytes → SocketM α} (hn : n ≤ s.unread.length)
    (hinp : inp = used ++ s.unread)
    (hok : ∀ s' x, s'.mse = s.mse → x.length = n → s.unread = x ++ s'.unread →
      Ends fail post (f x) s' ((used ++ x) ++ s'.unread) ok) :
    Ends fail post (consumeBytes n >>= f) s inp ok := by
  refine ends_modify ?_
  have hsplit : s.unread = s.unread.take n ++ (s.advance n).unread := by
    rw [unread_advance, take_append_drop]
  have h := hok (s.advance n) (s.unread.take n) rfl (length_take_of_le hn) hsplit
  rwa [append_assoc, ← hsplit, ← hinp] at h

theorem ends_take {f : Bytes → SocketM α} (hinp : inp = used ++ s.unread)
    (hok : ∀ s' x, s'.mse = s.mse → x.length = n →
      Ends fail post (f x) s' ((used ++ x) ++ s'.unread) ok)
    (hfail : ∀ s', s'.unread.length < n → fail s' (used ++ s'.unread) ok) :
    Ends fail post (fillBefore n timeout >>= fun _ => consumeBytes n >>= f) s inp ok :=
  ends_fillBefore hinp
    (fun _ hmse hlen => ends_consumeBytes hlen rfl fun s' x hmse' hx _ =>
      hok s' x (hmse'.trans hmse) hx)
    fun s' hlen _ => hfail s' hlen

variable {act rc4 : Bool} {e d : Rc4}

theorem ends_toSecret {b : Bytes} {f : Bytes → SocketM α} (hb : b.length = dhKeySize)
    (hok : Ends fail post (f b) s inp ok) : Ends fail post (toSecret b >>= f) s inp ok :=
  Ends.bind (ends_require (fun _ => hok) fun h => absurd hb h)

theorem Sets.ends {β : Type} {m : SocketM β} {f : β → SocketM α} {b : β} {mse : MseCrypto}
    (hm : Sets m s b mse) (hok : ∀ s', s'.unread = s.unread → s'.mse = some mse →
      Ends fail post (f b) s' inp ok) : Ends fail post (m >>= f) s inp ok := by
  obtain ⟨s', hrun, hun, hmse⟩ := hm
  refine Ends.bind ?_
  rw [Ends, hrun]
  exact hok s' hun hmse

theorem ends_readDec {f : Bytes → SocketM α} (hinp : inp = used ++ s.unread)
    (hmse : s.mse = some ⟨act, rc4, e, d⟩)
    (hok : ∀ s' x, s'.mse = some ⟨act, rc4, e, (Rc4.cipher.crypt d x).2⟩ → x.length = n →
      Ends fail post (f (Rc4.cipher.crypt d x).1) s' ((used ++ x) ++ s'.unread) ok)
    (hfail : ∀ s', s'.unread.length < n → fail s' (used ++ s'.unread) ok) :
    Ends fail post (readDec n timeout >>= f) s inp ok := by
  refine Ends.bind (ends_take hinp (fun s' x hmse' hx => ?_) hfail)
  rw [← bind_pure (cryptDecrypt x)]
  exact (sets_cryptDecrypt (hmse'.trans hmse)).ends fun s₂ hun hmse₂ => hun ▸ hok s₂ x hmse₂ hx

theorem ends_takeSelect {select : UInt32} (hmse : s.mse = some ⟨act, rc4, e, d⟩)
    (hok : ∀ s' b, select = cryptoPlaintext ∨ select = cryptoRc4 → s'.unread = s.unread →
      s'.mse = some ⟨act, b, e, d⟩ → Ends fail post (f ()) s' inp ok)
    (hfail : ¬ (select = cryptoPlaintext ∨ select = cryptoRc4) → fail s inp ok) :
    Ends fail post (takeSelect select >>= f) s inp ok := by
  unfold takeSelect
  split
  · next h => exact (sets_setRc4 hmse _).ends fun s' => hok s' _ (.inl h)
  · next h =>
    split
    · next h' => exact (sets_setRc4 hmse _).ends fun s' => hok s' _ (.inr h')
    · next h' => exact Ends.bind (hfail (by simp [h, h']))

theorem ends_readPad (hinp : inp = used ++ s.unread)
    (hmse : s.mse = some ⟨act, rc4, e, d⟩)
    (hok : ∀ s' pad d', s'.mse = some ⟨act, rc4, e, d'⟩ → pad.length = n →
      Ends fail post (f ()) s' ((used ++ pad) ++ s'.unread) ok)
    (hfail : ∀ s', s'.unread.length < n → fail s' (used ++ s'.unread) ok) :
    Ends fail post (readPad n timeout >>= f) s inp ok := by
  unfold readPad
  split
  · exact Ends.bind (ends_readDec hinp hmse
      (fun s' pad hmse' hlen => hok s' pad _ hmse' hlen) hfail)
  · next h =>
    refine Ends.bind ?_
    have hnil := hok s [] d hmse (by rw [length_nil]; omega)
    rwa [append_nil, ← hinp] at hnil

theorem ends_scanFor {pattern : Bytes} {limit fuel : Nat} {notFound : String}
    {post : Nat → AsyncSocket → Bytes → Bool → Prop} (hinp : inp = used ++ s.unread)
    (hfuel : limit ≤ fuel + s.unread.length)
    (hok : ∀ s' off, s'.mse = s.mse → search pattern s'.unread = some off →
      post off s' (used ++ s'.unread) ok)
    (hfail : ∀ s', search pattern s'.unread = none → fail s' (used ++ s'.unread) ok) :
    Ends fail post (scanFor pattern limit notFound timeout (fuel + 1)) s inp ok := by
  induction fuel generalizing s inp with
  | zero =>
    refine ends_modify ?_
    dsimp only
    cases hsearch : search pattern s.unread with
    | some off => exact hinp ▸ hok s off rfl hsearch
    | none => exact ends_require (fun h => absurd h (by omega)) fun _ => hinp ▸ hfail s hsearch
  | succ fuel ih =>
    refine ends_modify ?_
    dsimp only
    cases hsearch : search pattern s.unread with
    | some off => exact hinp ▸ hok s off rfl hsearch
    | none =>
      refine ends_require (fun _ => ends_fillBefore hinp (fun s' hmse hlen => ?_)
        fun s' hlen hpre => ?_) fun _ => hinp ▸ hfail s hsearch
      · exact ih rfl (by omega) fun s₂ off hmse₂ => hok s₂ off (hmse₂.trans hmse)
      · -- nothing more has come
        have heq := hpre.eq_of_length (by have := hpre.length_le; omega)
        exact hfail s' (heq ▸ hsearch)

end AsyncSocket

/-! ## What a failed attempt consumes -/

/-- Behind the constant: nothing, the method and the length of the padding, or these with the
    padding if they are acceptable. -/
def WholeFields (d : Rc4) (rest : Bytes) : Prop :=
  let header := (Rc4.cipher.crypt d (rest.take 6)).1
  let select := fromBe32 (header.take 4)
  let pad := (fromBe16 (header.drop 4)).toNat
  rest = [] ∨ rest.length = 6 ∨ (select = cryptoPlaintext ∨ select = cryptoRc4) ∧
    pad ≤ maxPadSize ∧ rest.length = 6 + pad

section

variable (E : HandshakeEnv) (received : Bytes)

/-- The constant of a reply with the received public key, as the initiator looks for it, and the
    stream after it. -/
def awaitedConstant : Bytes × Rc4 :=
  Rc4.cipher.crypt (streamB E.sha1 (E.dh.computeSecret (received.take dhKeySize)) E.infoHash)
    verificationConstant

/-- The received bytes are whole parts of a reply: none, the public key, or, if the initiator's
    second message could be sent, the key, the first constant behind it and whole fields. -/
def WholeParts (sent : Bool) : Prop :=
  received = [] ∨ received.length = dhKeySize ∨
    sent = true ∧ ∃ off,
      search (awaitedConstant E received).1 (received.drop dhKeySize) = some off ∧
      WholeFields (awaitedConstant E received).2 (received.drop (dhKeySize + (off + 8)))

/-- What the end of a failed attempt leaves unread. -/
def FailedClean (s : AsyncSocket) (sent : Bool) : Prop :=
  s.unread = [] ↔ WholeParts E received sent

end

variable {E : HandshakeEnv} {s s₁ : AsyncSocket} {key t inp : Bytes} {off : Nat}

section Reply

variable (hkey : key.length = dhKeySize)

include hkey

theorem failedClean_key {sent : Bool} (hnone : sent = true →
      search (awaitedConstant E key).1 s.unread = none) :
    FailedClean E (key ++ s.unread) s sent := by
  have hlen : key.length = 96 := hkey
  unfold FailedClean WholeParts awaitedConstant at *
  rw [take_left' hkey, drop_left' hkey]
  rw [take_of_length_le hkey.le] at hnone
  cases sent with
  | false => simp [← length_eq_zero_iff, hlen, dhKeySize]
  | true => simp [hnone rfl, ← length_eq_zero_iff, hlen, dhKeySize]

/-- Behind the constant, which has been found. -/
theorem wholeParts_found (ht : t.length = off + 8)
    (hfound : ∀ rest, search (awaitedConstant E key).1 (t ++ rest) = some off) (rest : Bytes) :
    WholeParts E (key ++ (t ++ rest)) true ↔ WholeFields (awaitedConstant E key).2 rest := by
  have hdrop : (key ++ (t ++ rest)).drop (dhKeySize + (off + 8)) = rest := by
    rw [← append_assoc, drop_left' (by rw [length_append]; omega)]
  have hconst : awaitedConstant E (key ++ (t ++ rest)) = awaitedConstant E key := by
    unfold awaitedConstant
    rw [take_left' hkey, take_of_length_le hkey.le]
  unfold WholeParts
  rw [hconst, drop_left' hkey, hfound]
  have hlong : dhKeySize + (off + 8 + rest.length) ≠ 0 ∧
      dhKeySize + (off + 8 + rest.length) ≠ dhKeySize := by omega
  simp only [Option.some.injEq, exists_eq_left', hdrop, ← length_eq_zero_iff, length_append, hkey,
    ht, hlong, true_and, false_or]

end Reply

namespace AsyncSocket

variable {post : MseResult × Bytes → AsyncSocket → Bytes → Bool → Prop} {act rc4 : Bool}
  {e : Rc4}

/-- **What a failed attempt leaves unread**: nothing, if whole parts of a reply have arrived. -/
theorem ends_awaitReply (hkey : key.length = dhKeySize) (hinp : inp = key ++ s.unread)
    (hmse : s.mse = some ⟨act, rc4, e, streamB E.sha1 (E.dh.computeSecret key) E.infoHash⟩)
    (hpost : ∀ r s' inp' ok', r.1 ≠ .failed → post r s' inp' ok') :
    Ends (fun s inp => FailedClean E inp s) post awaitReply s inp true := by
  have hconst : awaitedConstant E key =
      Rc4.cipher.crypt (streamB E.sha1 (E.dh.computeSecret key) E.infoHash)
        verificationConstant := by
    rw [awaitedConstant, take_of_length_le hkey.le]
  have hlen : (awaitedConstant E key).1.length = 8 := StreamCipher.length_crypt ..
  refine (sets_cryptDecrypt hmse).ends fun s₀ hun₀ hmse₀ => ?_
  rw [← hconst] at hmse₀ ⊢
  rw [← hun₀] at hinp
  refine Ends.bind (ends_scanFor hinp (by unfold maxPadSize; omega)
    (fun s₁ off hmse₁ hsearch => ?_) fun s' hnone => failedClean_key hkey fun _ => hnone)
  obtain ⟨hle, hfound⟩ := search_take (ne_nil_of_length_pos (by rw [hlen]; decide)) hsearch
  rw [hlen] at hle hfound
  refine ends_consumeBytes hle rfl fun s₂ t hmse₂ ht hsplit => ?_
  rw [hsplit, take_left' ht] at hfound
  have hparts := wholeParts_found hkey ht hfound
  have hclean : ∀ (s' : AsyncSocket) (used : Bytes),
      (WholeFields (awaitedConstant E key).2 (used ++ s'.unread) ↔ s'.unread = []) →
        FailedClean E ((key ++ t) ++ used ++ s'.unread) s' true := fun s' used h => by
    rw [FailedClean, append_assoc, append_assoc, hparts, h]
  generalize (awaitedConstant E key).2 = d at *
  -- the method and the length of the padding
  refine ends_readDec rfl (hmse₂.trans (hmse₁.trans hmse₀))
    (fun s₃ h hmse₃ hlen₃ => ?_) fun s' hlen' => ?_
  · generalize hheader : (Rc4.cipher.crypt d h).1 = header
    have hfields : ∀ rest, WholeFields d (h ++ rest) ↔ rest = [] ∨
        (fromBe32 (header.take 4) = cryptoPlaintext ∨ fromBe32 (header.take 4) = cryptoRc4) ∧
          (fromBe16 (header.drop 4)).toNat ≤ maxPadSize ∧
            rest.length = (fromBe16 (header.drop 4)).toNat := by
      intro rest
      simp [WholeFields, take_left' hlen₃, hheader, hlen₃, ← length_eq_zero_iff]
    have hshort : ∀ s' : AsyncSocket,
        ((fromBe32 (header.take 4) = cryptoPlaintext ∨ fromBe32 (header.take 4) = cryptoRc4) →
          (fromBe16 (header.drop 4)).toNat ≤ maxPadSize →
          s'.unread.length ≠ (fromBe16 (header.drop 4)).toNat) →
        FailedClean E ((key ++ t) ++ h ++ s'.unread) s' true := fun s' hne =>
      hclean s' h ((hfields _).trans
        (or_iff_left fun hrest => hne hrest.1 hrest.2.1 hrest.2.2))
    refine ends_takeSelect hmse₃ (fun s₄ b hselect hun₄ hmse₄ => ?_)
      fun hselect => hshort s₃ fun h => absurd h hselect
    rw [← hun₄]
    refine ends_require (fun hpad => ?_) fun hpad => hshort s₄ fun _ h => absurd h hpad
    refine ends_readPad rfl hmse₄ (fun s₅ pad d' hmse₅ hlen₅ => ?_)
      fun s' hlen => hshort s' fun _ _ => Nat.ne_of_lt hlen
    refine ends_readDec rfl hmse₅ (fun s₆ hs hmse₆ _ => ?_) fun s' _ => ?_
    · refine ends_modify (hpost _ _ _ _ ?_)
      dsimp only
      split <;> decide
    · rw [append_assoc ((key ++ t) ++ h), append_assoc (key ++ t)]
      have hrest := hfields (pad ++ s'.unread)
      rw [length_append, hlen₅, Nat.add_eq_left, length_eq_zero_iff, append_eq_nil_iff] at hrest
      rw [← append_assoc h, ← append_assoc (key ++ t)]
      refine hclean s' (h ++ pad) ?_
      rw [append_assoc, hrest]
      exact ⟨fun h => h.elim (·.2) (·.2.2), fun h => .inr ⟨hselect, hpad, h⟩⟩
  · have h := hclean s' [] ?_
    · rwa [append_nil] at h
    · refine ⟨?_, .inl⟩
      rintro (h | h | ⟨-, -, h⟩) <;> rw [nil_append] at h
      · exact h
      · omega
      · omega

theorem ends_initiate (hhs : E.myHandshake.length = handshakeLen) (hfresh : s.mse = none)
    (hunread : s.unread = []) (hpost : ∀ r s' inp' ok', r.1 ≠ .failed → post r s' inp' ok') :
    Ends (fun s inp => FailedClean E inp s) post
      (initiate E.sha1 E.dh E.infoHash E.myHandshake) s [] true := by
  have hshort : ∀ (s' : AsyncSocket) (ok : Bool), s'.unread.length < dhKeySize →
      FailedClean E s'.unread s' ok := by
    intro s' ok hlen
    refine ⟨.inl, ?_⟩
    rintro (h | h | ⟨-, off, h, -⟩)
    · exact h
    · omega
    · rw [drop_of_length_le hlen.le] at h
      cases h
  refine ends_require (fun _ => ends_sendRaw (encrypting_of_fresh hfresh) ?_ ?_)
    fun h => absurd hhs h
  · have hinp : [] = [] ++ s.unread := hunread.symm
    refine ends_take hinp (fun s₁ key hmse₁ hkey => ?_) fun s' hlen => hshort s' true hlen
    refine ends_toSecret hkey ((sets_initStreams (keyA_ne_nil _ _) (keyB_ne_nil _ _)).ends
      fun s₂ hun₂ hmse₂ => (sets_cryptEncrypt hmse₂).ends fun s₃ hun₃ hmse₃ =>
        (sets_cryptEncrypt hmse₃).ends fun s₄ hun₄ hmse₄ => ?_)
    rw [nil_append, ← hun₂, ← hun₃, ← hun₄]
    exact ends_sendRaw (encrypting_of_not_active hmse₄) (ends_awaitReply hkey rfl hmse₄ hpost)
      (failedClean_key hkey nofun)
  · have h := hshort s false (by rw [hunread]; decide)
    rwa [hunread] at h

end AsyncSocket

variable {es : List (Outcome UInt8)}

/-- The bytes that arrive, and whether all is written. -/
def received (es : List (Outcome UInt8)) : Bytes := es.flatMap Outcome.symbols

def allSent (es : List (Outcome UInt8)) : Bool := es.all Outcome.ok

/-- **A failed attempt** leaves no encryption behind, since its handler resets the streams, and
    nothing unread exactly if whole parts of a reply have arrived. -/
theorem mseHandshakeInitiator_failed {x : Bytes} (hhs : E.myHandshake.length = handshakeLen)
    (hfresh : s.mse = none) (hunread : s.unread = [])
    (hrun : runSteps resume es
      ((mseHandshakeInitiator E.sha1 E.dh E.infoHash E.myHandshake).run s) =
        some (.done (.ok (.failed, x), s₁))) :
    s₁.mse = none ∧ (s₁.unread = [] ↔ WholeParts E (received es) (allSent es)) := by
  let post := fun (r : Except SocketError (MseResult × Bytes) × AsyncSocket) inp ok =>
    ∀ x, r.1 = .ok (.failed, x) →
      r.2.mse = none ∧ (r.2.unread = [] ↔ WholeParts E inp ok)
  have hends : ((mseHandshakeInitiator E.sha1 E.dh E.infoHash E.myHandshake).run s).Ends
      post [] true := by
    refine Coroutine.Ends.bind (Coroutine.Ends.mono (ends_initiate hhs hfresh hunread
      fun _ _ _ _ h => h) ?_)
    rintro ⟨r, s'⟩ inp ok h
    cases r with
    | ok a =>
      intro x hx
      cases hx
      exact absurd rfl h
    | error e => exact fun _ _ => ⟨rfl, h⟩
  refine runSteps_history_preserves (I := fun es c => c.Ends post (received es) (allSent es))
    (fun es c e c' hstep h => ?_) hrun hends x rfl
  simpa [received, allSent] using h.resume hstep

theorem runSteps_resume_bind {α γ : Type} {c : Coroutine UInt8 α} {f : α → Coroutine UInt8 γ}
    {a : α} (hrun : runSteps resume es c = some (.done a)) :
    runSteps resume es (c.bind f) = some (f a) := by
  induction es generalizing c with
  | nil =>
    cases hrun
    rfl
  | cons e es ih =>
    obtain ⟨c₁, hc₁, hrest⟩ := Option.bind_eq_some_iff.mp hrun
    rw [runSteps, resume_bind hc₁, Option.bind_some]
    exact ih hrest

theorem exchangeHandshakes_reconnected {E : HandshakeEnv} (hmse : E.mseEnabled = true)
    (hin : E.inbound = false) {x : Bytes}
    (hrun : runSteps resume es ((mseHandshakeInitiator E.sha1 E.dh E.infoHash E.myHandshake).run s)
      = some (.done (.ok (.failed, x), s₁))) :
    runSteps resume (es ++ [.connected true]) (E.exchangeHandshakes.run s) =
      some ((plainHandshake E.myHandshake).run s₁) := by
  have hex : E.exchangeHandshakes = initiateHandshake E.sha1 E.dh E.infoHash E.myHandshake := by
    simp [HandshakeEnv.exchangeHandshakes, hmse, hin]
  rw [hex, runSteps_append]
  exact congrArg (Option.bind · _) (runSteps_resume_bind hrun)

theorem plainHandshake_feed (hs : Bytes) {hs' later : Bytes} {cs : List Bytes}
    (hplain : s.mse = none)
    (hlen : hs'.length = handshakeLen) (hv : s.unread ++ cs.flatten = hs' ++ later)
    (hsize : ∀ c ∈ cs, 0 < c.length ∧ c.length ≤ readChunkSize) :
    ∃ s' cs', ((plainHandshake hs).run s).feed cs = some ([hs], (.ok (some hs'), s'), cs') ∧
      s'.unread ++ cs'.flatten = later ∧ s'.incoming = none := by
  have hfollows : (plainHandshake hs).Follows 0
      (fun r s' inp' sc' => sc' = [] ∧ r = some hs' ∧ s'.unread ++ inp' = later ∧
        s'.incoming = none) s cs.flatten [(0, hs)] :=
    follows_plainHandshake (encrypting_of_fresh hplain) hlen hv
      fun s' inp' h' hin' => ⟨rfl, rfl, h', hin'⟩
  obtain ⟨ws, r, s', cs', sc', hfeed, hws, -, rfl, rfl, hs', hin'⟩ := hfollows.feed rfl hsize
  obtain rfl : [hs] = ws := by simpa using hws
  exact ⟨s', cs', hfeed, hs', hin'⟩


/-- After the new connection the peer's handshake is made of the first 68 bytes that arrive on it,
    in any chunks, and what is left to read, in the clear, are the bytes after those. -/
def StartsClean (E : HandshakeEnv) (c : Coroutine UInt8 (Except SocketError (Option Bytes) ×
    AsyncSocket)) : Prop :=
  ∀ hs later cs, hs.length = handshakeLen → cs.flatten = hs ++ later →
    (∀ c ∈ cs, 0 < c.length ∧ c.length ≤ readChunkSize) →
    ∃ s' cs', c.feed cs = some ([E.myHandshake], (.ok (some hs), s'), cs') ∧
      s'.unread ++ cs'.flatten = later ∧ s'.incoming = none

theorem startsClean_iff {E : HandshakeEnv} (hplain : s.mse = none) :
    StartsClean E ((plainHandshake E.myHandshake).run s) ↔ s.unread = [] := by
  constructor
  · intro hclean
    cases hun : s.unread with
    | nil => rfl
    | cons b u =>
      -- 68 bytes of another value
      let hs := replicate handshakeLen (b + 1)
      obtain ⟨s', cs', hfeed, -⟩ := hclean hs [] [hs] length_replicate (by simp)
        (by rw [forall_mem_singleton, length_replicate]; decide)
      have hall : s.unread ++ [hs].flatten = (s.unread ++ hs).take handshakeLen ++
          (s.unread ++ hs).drop handshakeLen := by
        rw [take_append_drop, flatten_singleton]
      obtain ⟨s'', cs'', hfeed', -⟩ := plainHandshake_feed E.myHandshake hplain
        (length_take_of_le (by simp [hs])) hall
        (by rw [forall_mem_singleton, length_replicate]; decide)
      rw [hfeed] at hfeed'
      have hhead : some hs = some ((s.unread ++ hs).take handshakeLen) := by
        simp only [Option.some.injEq, Prod.mk.injEq, Except.ok.injEq] at hfeed' ⊢
        exact hfeed'.2.1.1
      rw [hun] at hhead
      have hb : b + 1 = b := (cons.inj (Option.some.inj hhead)).1
      exact absurd hb (by simp)
  · intro hunread hs later cs hlen hcs hsize
    refine plainHandshake_feed _ hplain hlen ?_ hsize
    rw [hunread, hcs, nil_append]

def attemptFailed : Option (Coroutine UInt8 (Except SocketError (MseResult × Bytes) ×
    AsyncSocket)) → Bool
  | some (.done (.ok (.failed, _), _)) => true
  | _ => false

/-- **The fallback starts clean exactly when whole parts of a reply have arrived** in the failed
    attempt. -/
theorem exchangeHandshakes_fallback {E : HandshakeEnv} {es : List (Outcome UInt8)}
    (hmse : E.mseEnabled = true) (hin : E.inbound = false)
    (hhs : E.myHandshake.length = handshakeLen) (hfresh : s.mse = none) (hunread : s.unread = [])
    (hrun : attemptFailed (runSteps resume es
      ((mseHandshakeInitiator E.sha1 E.dh E.infoHash E.myHandshake).run s)) = true) :
    ∃ c, runSteps resume (es ++ [.connected true]) (E.exchangeHandshakes.run s) = some c ∧
      (StartsClean E c ↔ WholeParts E (received es) (allSent es)) := by
  unfold attemptFailed at hrun
  split at hrun
  · next x s₁ heq =>
    obtain ⟨hplain, hparts⟩ := mseHandshakeInitiator_failed hhs hfresh hunread heq
    refine ⟨_, exchangeHandshakes_reconnected hmse hin heq, ?_⟩
    rw [startsClean_iff hplain, hparts]
  · cases hrun

def outboundEnv : HandshakeEnv where
  sha1 := id
  dh := keyPairFrom 0
  infoHash := replicate 20 7
  myId := replicate 20 8
  mseEnabled := true
  inbound := false
  completedPieces := 0
  numPieces := 0
  haveBitfield := []

/-- A peer that sends a public key in two chunks and then nothing until the deadline. -/
theorem exchangeHandshakes_fallback_key :
    let es := [.written true, .arrived (.chunk (replicate 90 1)),
      .arrived (.chunk (replicate 6 2)), .written true, .arrived .expired]
    ∃ c, runSteps resume (es ++ [.connected true])
      (outboundEnv.exchangeHandshakes.run {}) = some c ∧
      StartsClean outboundEnv c := by
  intro es
  obtain ⟨c, hc, hclean⟩ := exchangeHandshakes_fallback (E := outboundEnv) (s := {}) rfl rfl rfl rfl
    rfl (show attemptFailed (runSteps resume es _) = true by decide +kernel)
  exact ⟨c, hc, hclean.mpr (.inr (.inl rfl))⟩

/-- A peer that does not negotiate: it sends its plain handshake and closes. -/
theorem exchangeHandshakes_fallback_stale :
    let old : Bytes := replicate 68 1
    let new : Bytes := replicate 68 2
    ∃ c s' cs', runSteps resume
        ([.written true, .arrived (.chunk old), .arrived .closed] ++ [.connected true])
        (outboundEnv.exchangeHandshakes.run {}) = some c ∧
      c.feed [new] = some ([outboundEnv.myHandshake], (.ok (some old), s'), cs') ∧
      s'.unread ++ cs'.flatten = new := by
  exact ⟨_, _, _, rfl, rfl, rfl⟩

end P2P
