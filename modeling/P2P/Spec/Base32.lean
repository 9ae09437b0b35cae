import P2P.ForStd.BitGroups
import P2P.Native.Base32

/-!
# The base32 coders agree

The bits of the characters are the bits of the bytes, with zeros behind them to fill the last
character up.
-/

namespace P2P

open List BitString LsdCrypto

def valueBits (vals : List Nat) : List Bool := vals.flatMap fun v => bitsBelow v.testBit 5

theorem length_valueBits (vals : List Nat) : (valueBits vals).length = vals.length * 5 := by
  simp [valueBits, length_flatMap]

theorem base32Char_spec {v : Nat} (hv : v < 32) : base32Char v ≠ 61 ∧
    reverseTable (base32Char v) = some v ∧ charToBase32 (base32Char v) = some v ∧
    charToBase32 (toLower (base32Char v)) = some v := by
  have hall : ∀ v : Fin 32, base32Char v ≠ 61 ∧
      reverseTable (base32Char v) = some v.val ∧
      charToBase32 (base32Char v) = some v.val ∧
      charToBase32 (toLower (base32Char v)) = some v.val := by
    decide +kernel
  exact hall ⟨v, hv⟩

namespace LsdCrypto

variable {buffer : BitVec 32} {n : Nat}

theorem toNat_and_lt (v : BitVec 32) : (v &&& 0x1F).toNat < 32 := by
  rw [BitVec.toNat_and]
  exact Nat.lt_of_le_of_lt Nat.and_le_right (by decide)

theorem getLsbD_mask {i : Nat} (hi : i < 5) (v : BitVec 32) :
    (v &&& 0x1F).toNat.testBit i = v.getLsbD i := by
  have hmask : ∀ i : Fin 5, (0x1F : BitVec 32).getLsbD i = true := by decide
  rw [← BitVec.getLsbD, BitVec.getLsbD_and, hmask ⟨i, hi⟩, Bool.and_true]

theorem encodeBits_spec (buffer : BitVec 32) (bits : Nat) (hbits : bits ≤ 32) :
    ∃ vals, (∀ v ∈ vals, v < 32) ∧ (encodeBits buffer bits).1 = vals.map base32Char ∧
      valueBits vals ++ bitsBelow buffer.getLsbD (encodeBits buffer bits).2 =
        bitsBelow buffer.getLsbD bits ∧ (encodeBits buffer bits).2 < 5 := by
  fun_induction encodeBits buffer bits with
  | case1 bits r ih =>
    obtain ⟨vals, hlt, hchars, hvals, hleft⟩ := ih (by omega)
    refine ⟨(buffer.sshiftRight bits &&& 0x1F).toNat :: vals, ?_, ?_, ?_, hleft⟩
    · exact forall_mem_cons.mpr ⟨toNat_and_lt _, hlt⟩
    · rw [map_cons, hchars]
    · rw [show bits.succ.succ.succ.succ.succ = 5 + bits by omega, bitsBelow_add, ← hvals,
        ← append_assoc]
      congr 1
      show bitsBelow _ 5 ++ valueBits vals = _
      congr 1
      apply bitsBelow_congr
      intro i hi
      rw [getLsbD_mask hi, getLsbD_sshiftRight_of_lt _ (by omega)]
  | case2 bits hsmall =>
    refine ⟨[], by simp, rfl, rfl, ?_⟩
    by_contra hge
    exact hsmall (bits - 5) (by omega)

theorem encodeLoop_spec (input : Bytes) (hn : n < 5) :
    ∃ vals pad, (∀ v ∈ vals, v < 32) ∧ encodeLoop buffer n input = vals.map base32Char ∧
      pad < 5 ∧
      valueBits vals = bitsBelow buffer.getLsbD n ++ bits input ++ replicate pad false := by
  induction input generalizing buffer n with
  | nil =>
    unfold encodeLoop
    split
    · -- the bits that are left are filled up
      refine ⟨[_], 5 - n, forall_mem_singleton.mpr (toNat_and_lt _), rfl, by omega, ?_⟩
      have hin := bitsBelow_shiftIn (w := n) (k := 5 - n) buffer 0#32 (by omega) (by simp)
      rw [BitVec.or_zero, bitsBelow_zero, show n + (5 - n) = 5 by omega] at hin
      rw [bits, flatMap_nil, append_nil, ← hin, valueBits, flatMap_singleton]
      exact bitsBelow_congr fun i hi => getLsbD_mask hi _
    · refine ⟨[], 0, by simp, rfl, by decide, ?_⟩
      rw [show n = 0 by omega]
      rfl
  | cons b input ih =>
    obtain ⟨vals, hlt, hchars, hvals, hleft⟩ :=
      encodeBits_spec (buffer <<< 8 ||| b.toBitVec.setWidth 32) (n + 8) (by omega)
    obtain ⟨vals', pad, hlt', hchars', hpad, hvals'⟩ :=
      @ih (buffer <<< 8 ||| b.toBitVec.setWidth 32) _ hleft
    refine ⟨vals ++ vals', pad, ?_, ?_, hpad, ?_⟩
    · exact fun v hv => (mem_append.mp hv).elim (hlt v) (hlt' v)
    · rw [encodeLoop, hchars, hchars', map_append]
    · have hin : bitsBelow (buffer <<< 8 ||| b.toBitVec.setWidth 32).getLsbD (n + 8) =
          bitsBelow buffer.getLsbD n ++ byteBits b := by
        rw [bitsBelow_shiftIn _ _ (by omega), byteBits_eq]
        · congr 1
        · intro i
          rw [BitVec.getLsbD_setWidth, BitVec.getLsbD_of_ge _ _ (by omega), Bool.and_false]
      rw [valueBits, flatMap_append, ← valueBits, ← valueBits, hvals', ← append_assoc,
        ← append_assoc, hvals, hin]
      simp [bits]

theorem base32Encode_spec (x : Bytes) :
    ∃ vals pad, (∀ v ∈ vals, v < 32) ∧ base32Encode x = vals.map base32Char ∧ pad < 5 ∧
      valueBits vals = bits x ++ replicate pad false :=
  encodeLoop_spec x (by decide)

theorem decodeLoop_spec {vals : List Nat} (hvals : ∀ v ∈ vals, v < 32) (hn : n < 8) :
    ∃ rest : List Bool, rest.length < 8 ∧
      bits (decodeLoop buffer n (vals.map base32Char)) ++ rest =
        bitsBelow buffer.getLsbD n ++ valueBits vals := by
  induction vals generalizing buffer n with
  | nil =>
    exact ⟨bitsBelow buffer.getLsbD n, by simpa using hn, by simp [decodeLoop, bits, valueBits]⟩
  | cons v vals ih =>
    obtain ⟨hv, hvals⟩ := forall_mem_cons.mp hvals
    obtain ⟨hne, hval, -, -⟩ := base32Char_spec hv
    have hin : bitsBelow (buffer <<< 5 ||| BitVec.ofNat 32 v).getLsbD (n + 5) =
        bitsBelow buffer.getLsbD n ++ bitsBelow v.testBit 5 := by
      rw [bitsBelow_shiftIn _ _ (by omega) (getLsbD_ofNat_of_lt hv), bitsBelow_ofNat (by decide)]
    rw [map_cons, decodeLoop, if_neg hne, hval]
    dsimp only
    have hgoal : bitsBelow buffer.getLsbD n ++ valueBits (v :: vals) =
        bitsBelow (buffer <<< 5 ||| BitVec.ofNat 32 v).getLsbD (n + 5) ++ valueBits vals := by
      rw [hin, append_assoc]
      rfl
    rw [hgoal]
    split
    · next hge =>
      obtain ⟨rest, hlen, hrest⟩ :=
        @ih (buffer <<< 5 ||| BitVec.ofNat 32 v) (n + 5 - 8) hvals (by omega)
      refine ⟨rest, hlen, ?_⟩
      rw [show n + 5 = 8 + (n + 5 - 8) by omega, bitsBelow_add, append_assoc,
        show 8 + (n + 5 - 8) - 8 = n + 5 - 8 by omega, ← hrest, ← append_assoc]
      congr 1
      show byteBits _ ++ bits _ = _
      congr 1
      rw [byteBits_eq]
      apply bitsBelow_congr
      intro i hi
      have hmask : ∀ i : Fin 8, (0xFF : BitVec 32).getLsbD i = true := by decide
      rw [BitVec.getLsbD_setWidth, BitVec.getLsbD_and, hmask ⟨i, hi⟩,
        getLsbD_sshiftRight_of_lt _ (by omega), decide_eq_true hi, Bool.true_and, Bool.and_true]
    · exact ih hvals (by omega)

theorem base32Decode_base32Encode (x : Bytes) : base32Decode (base32Encode x) = x := by
  obtain ⟨vals, pad, hlt, hchars, hpad, hvals⟩ := base32Encode_spec x
  obtain ⟨rest, hrest, hbits⟩ := @decodeLoop_spec 0 0 _ hlt (by decide)
  rw [← hchars, hvals, bitsBelow, nil_append] at hbits
  apply bits_injective
  -- what is left over does not fill a byte on either side
  have hlen := congrArg length hbits
  rw [length_append, length_append, length_bits, length_bits, length_replicate] at hlen
  refine (append_inj hbits ?_).1
  rw [length_bits, length_bits]
  show 8 * (decodeLoop 0 0 (base32Encode x)).length = _
  omega

end LsdCrypto

theorem foldl_shiftIn {vals : List Nat} (hvals : ∀ v ∈ vals, v < 32) (buffer : BitVec 64) (w : Nat)
    (hw : w + vals.length * 5 ≤ 64) :
    bitsBelow (vals.foldl (fun (buffer : BitVec 64) val => buffer <<< 5 ||| BitVec.ofNat 64 val)
        buffer).getLsbD (w + vals.length * 5) =
      bitsBelow buffer.getLsbD w ++ valueBits vals := by
  induction vals generalizing buffer w with
  | nil => simp [valueBits]
  | cons v vals ih =>
    obtain ⟨hv, hvals⟩ := forall_mem_cons.mp hvals
    rw [length_cons] at hw ⊢
    have hrest := ih hvals (buffer <<< 5 ||| BitVec.ofNat 64 v) (w + 5) (by omega)
    rw [bitsBelow_shiftIn _ _ (by omega) (getLsbD_ofNat_of_lt hv), bitsBelow_ofNat (by decide),
      append_assoc] at hrest
    rw [foldl_cons, show w + (vals.length + 1) * 5 = w + 5 + vals.length * 5 by omega, hrest]
    rfl

theorem bits_bytes (buffer : BitVec 64) :
    bits ((List.range 5).map fun j =>
      UInt8.ofBitVec ((buffer >>> (32 - j * 8) &&& 0xFF).setWidth 8)) =
      bitsBelow buffer.getLsbD 40 := by
  have hbyte : ∀ r ≤ 32, byteBits (UInt8.ofBitVec ((buffer >>> r &&& 0xFF).setWidth 8)) =
      bitsBelow (fun i => buffer.getLsbD (i + r)) 8 := by
    intro r hr
    rw [byteBits_eq]
    apply bitsBelow_congr
    intro i hi
    have hmask : ∀ i : Fin 8, (0xFF : BitVec 64).getLsbD i = true := by decide
    rw [BitVec.getLsbD_setWidth, BitVec.getLsbD_and, hmask ⟨i, hi⟩, BitVec.getLsbD_ushiftRight,
      decide_eq_true hi, Bool.true_and, Bool.and_true, Nat.add_comm]
  show bits [_, _, _, _, _] = _
  simp only [bits, flatMap_cons, flatMap_nil, append_nil]
  rw [hbyte _ (by decide), hbyte _ (by decide), hbyte _ (by decide), hbyte _ (by decide),
    hbyte _ (by decide)]
  rw [show 40 = 8 + 32 from rfl, bitsBelow_add, show 32 = 8 + 24 from rfl,
    bitsBelow_add _ 8 24, show 24 = 8 + 16 from rfl, bitsBelow_add _ 8 16,
    show 16 = 8 + 8 from rfl, bitsBelow_add _ 8 8]
  rfl

theorem decodeBase32InfoHash_spec {char : Nat → UInt8}
    (hchar : ∀ v < 32, charToBase32 (char v) = some v) {vals : List Nat}
    (hvals : ∀ v ∈ vals, v < 32) (hlen : vals.length = 32) :
    ∃ hash, decodeBase32InfoHash (vals.map char) = some hash ∧ bits hash = valueBits vals := by
  have hmap : ∀ l : List Nat, (∀ v ∈ l, v < 32) → (l.map char).mapM charToBase32 = some l := by
    intro l hl
    induction l with
    | nil => rfl
    | cons v l ih =>
      obtain ⟨hv, hl⟩ := forall_mem_cons.mp hl
      rw [map_cons, mapM_cons, hchar v hv, ih hl]
      rfl
  have hgroup : ∀ k < 4, ∃ bytes, decodeBase32Group (((vals.map char).drop (k * 8)).take 8) =
      some bytes ∧ bits bytes = valueBits ((vals.drop (k * 8)).take 8) := by
    intro k hk
    have hsub : ∀ v ∈ (vals.drop (k * 8)).take 8, v < 32 :=
      fun v hv => hvals v (mem_of_mem_drop (mem_of_mem_take hv))
    have hsize : ((vals.drop (k * 8)).take 8).length = 8 := by
      rw [length_take, length_drop]
      omega
    have hbits := foldl_shiftIn hsub 0 0 (by omega)
    rw [hsize] at hbits
    refine ⟨_, ?_, (bits_bytes _).trans hbits⟩
    rw [decodeBase32Group, ← map_drop, ← map_take, hmap _ hsub]
    rfl
  obtain ⟨b₀, h₀, hb₀⟩ := hgroup 0 (by decide)
  obtain ⟨b₁, h₁, hb₁⟩ := hgroup 1 (by decide)
  obtain ⟨b₂, h₂, hb₂⟩ := hgroup 2 (by decide)
  obtain ⟨b₃, h₃, hb₃⟩ := hgroup 3 (by decide)
  have hdrop : ∀ k, vals.drop k = (vals.drop k).take 8 ++ vals.drop (k + 8) := by
    intro k
    rw [← drop_drop, take_append_drop]
  have hsplit : vals = (vals.drop 0).take 8 ++ ((vals.drop 8).take 8 ++ ((vals.drop 16).take 8 ++
      (vals.drop 24).take 8)) := by
    have hend : vals.drop 24 = (vals.drop 24).take 8 := by
      rw [take_of_length_le]
      rw [length_drop, hlen]
    exact (hdrop 0).trans (congrArg _ ((hdrop 8).trans (congrArg _ ((hdrop 16).trans
      (congrArg _ hend)))))
  refine ⟨[] ++ b₀ ++ b₁ ++ b₂ ++ b₃, ?_, ?_⟩
  · rw [decodeBase32InfoHash, if_neg (by simp [hlen])]
    show foldlM _ _ [0, 1, 2, 3] = _
    simp only [foldlM_cons, foldlM_nil, h₀, h₁, h₂, h₃]
    rfl
  · rw [hsplit]
    simp only [bits, valueBits, flatMap_append, nil_append, append_assoc] at hb₀ hb₁ hb₂ hb₃ ⊢
    rw [hb₀, hb₁, hb₂, hb₃]

/-- The coders of local discovery are inverse for byte strings of any length, and the decoder of
    magnet links reads the encoder's info hashes, in either case. -/
theorem base32_codecs_agree :
    (∀ x, base32Decode (base32Encode x) = x) ∧
      ∀ h : Bytes, h.length = 20 →
        decodeBase32InfoHash (base32Encode h) = some h ∧
        decodeBase32InfoHash ((base32Encode h).map toLower) = some h := by
  refine ⟨base32Decode_base32Encode, fun h hh => ?_⟩
  obtain ⟨vals, pad, hlt, hchars, hpad, hvals⟩ := base32Encode_spec h
  -- twenty bytes fill their characters
  have hlen := congrArg length hvals
  rw [length_valueBits, length_append, length_bits, length_replicate, hh] at hlen
  have hpad : pad = 0 := by omega
  rw [hpad, replicate_zero, append_nil] at hvals
  have hdecode : ∀ char : Nat → UInt8, (∀ v < 32, charToBase32 (char v) = some v) →
      decodeBase32InfoHash (vals.map char) = some h := by
    intro char hchar
    obtain ⟨hash, hhash, hbits⟩ := decodeBase32InfoHash_spec hchar hlt (by omega)
    rw [hhash, bits_injective (hbits.trans hvals)]
  rw [hchars, map_map]
  exact ⟨hdecode _ fun v hv => (base32Char_spec hv).2.2.1,
    hdecode _ fun v hv => (base32Char_spec hv).2.2.2⟩

theorem base32_codecs_agree_zeros :
    decodeBase32InfoHash (base32Encode (replicate 20 0)) = some (replicate 20 0) :=
  (base32_codecs_agree.2 (replicate 20 0) rfl).1

end P2P
