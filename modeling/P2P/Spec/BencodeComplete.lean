import P2P.Spec.BencodeGrammar

/-!
# Bencode: every accepted spelling is decoded, and the round trip

The decoder reads the spelling of an accepted tree and stops exactly at its end, whatever follows.
-/

namespace P2P.Bencode

open Decimal StrTok List

variable {c : UInt8} {s : Bytes}

private theorem bne_of_not_mem (h : c ∉ s) : ∀ b ∈ s, (b != c) = true := by
  intro b hb
  simp only [bne_iff_ne]
  rintro rfl
  exact h hb

theorem takeWhile_ne_append (h : c ∉ s) (r : Bytes) :
    (s ++ c :: r).takeWhile (· != c) = s := by
  rw [takeWhile_append_of_pos (bne_of_not_mem h)]
  simp

theorem dropWhile_ne_append (h : c ∉ s) (r : Bytes) :
    (s ++ c :: r).dropWhile (· != c) = c :: r := by
  rw [dropWhile_append_of_pos (bne_of_not_mem h)]
  simp

theorem decodeString_spell {k : StrTok} (hk : k.Accepted) (r : Bytes) :
    decodeString (k.spell ++ r) = .ok (k.body, r) := by
  obtain ⟨hcolon, i, n, hfc, hi⟩ := hk
  have hshape : k.spell ++ r = k.len ++ colon :: (k.body ++ r) := by simp [spell]
  have htoNat : i.toInt.toNat = k.body.length := by omega
  rw [hshape]
  simp only [decodeString, dropWhile_ne_append hcolon, takeWhile_ne_append hcolon, hfc, htoNat]
  rw [if_neg (by omega), if_neg (by simp), List.take_left', List.drop_left']
  · rfl
  · rfl

variable {text : Bytes} {i : Int64}

theorem endTag_not_mem_of_complete (h : fromChars text = .ok (i, text.length)) :
    endTag ∉ text := by
  obtain ⟨neg, ds, rfl, -, hd, -⟩ := fromChars_complete h
  intro hmem
  have := all_eq_true.mp (numeral_all neg hd) _ hmem
  exact absurd this (by decide)

theorem decodeInteger_spell (h : fromChars text = .ok (i, text.length)) (r : Bytes) :
    decodeInteger (intTag :: (text ++ endTag :: r)) = .ok (i, r) := by
  have hend := endTag_not_mem_of_complete h
  simp only [decodeInteger, ne_eq, not_true_eq_false, if_false, dropWhile_ne_append hend,
    takeWhile_ne_append hend, h]

theorem intOf_eq {n : Nat} (h : fromChars text = .ok (i, n)) : intOf text = i := by
  simp [intOf, h]

section

variable (item : Bytes → Except BencodeError (Value × Bytes)) (n : Nat) (r : Bytes)

theorem decodeItems_endTag (result : List Value) :
    decodeItems item n (endTag :: r) result = .ok (result, r) := by
  cases n <;> simp [decodeItems]

theorem decodeEntries_endTag (result : Dict) :
    decodeEntries item n (endTag :: r) result = .ok (result, r) := by
  cases n <;> simp [decodeEntries]

end

variable {t : Syn}

theorem spell_length_pos (ht : t.Accepted) : 0 < t.spell.length := by
  obtain ⟨b, r, hspell, -⟩ := t.spell_cons ht
  simp [hspell]

private theorem strTok_spell_length_pos {k : StrTok} : 0 < k.spell.length := by
  simp [spell]

mutual

theorem decodeValue_spell : ∀ (t : Syn), t.Accepted → ∀ (depth : Nat) (r : Bytes),
    t.spell.length ≤ depth → decodeValue depth (t.spell ++ r) = .ok (t.value, r)
  | .int text, ht, depth, r, hlen => by
    obtain ⟨i, hi⟩ := ht
    obtain ⟨d, rfl⟩ : ∃ d, depth = d + 1 := ⟨depth - 1, by simp [Syn.spell] at hlen; omega⟩
    -- the tag is not a digit, so this is no string
    have hdec := decodeInteger_spell hi r
    have hdigit : isDigit intTag = false := rfl
    simp only [Syn.spell, cons_append, append_assoc, nil_append, decodeValue,
      hdigit, hdec, Syn.value, intOf_eq hi]
    rfl
  | .str tok, ht, depth, r, hlen => by
    obtain ⟨htok, b, hb, hdigit⟩ := ht
    obtain ⟨d, rfl⟩ : ∃ d, depth = d + 1 :=
      ⟨depth - 1, by have := strTok_spell_length_pos (k := tok); simp [Syn.spell] at hlen; omega⟩
    have hdec := decodeString_spell htok r
    -- the first byte of the spelling is the digit the tree promises
    obtain ⟨s, hs⟩ : ∃ s, tok.spell ++ r = b :: s := by
      cases hl : tok.len with
      | nil => simp [hl] at hb
      | cons b' l =>
        have : b' = b := by simpa [hl] using hb
        exact ⟨l ++ colon :: tok.body ++ r, by simp [spell, hl, this]⟩
    simp only [Syn.spell, Syn.value]
    rw [hs] at hdec ⊢
    simp only [decodeValue, hdigit, hdec, if_true]
    rfl
  | .list items, ht, depth, r, hlen => by
    obtain ⟨d, rfl⟩ : ∃ d, depth = d + 1 := ⟨depth - 1, by simp [Syn.spell] at hlen; omega⟩
    have hitems := decodeItems_spell items ht d (spellItems items ++ endTag :: r).length [] r
      (by simp [Syn.spell] at hlen; omega) (by simp)
    have hdigit : isDigit listTag = false := rfl
    have hint : listTag ≠ intTag := by decide
    simp only [Syn.spell, cons_append, append_assoc, nil_append, decodeValue,
      hdigit, hint, decodeList, Bool.false_eq_true, if_false, if_true, ne_eq, not_true_eq_false,
      hitems, Syn.value]
    rfl
  | .dict entries, ht, depth, r, hlen => by
    obtain ⟨d, rfl⟩ : ∃ d, depth = d + 1 := ⟨depth - 1, by simp [Syn.spell] at hlen; omega⟩
    have hentries := decodeEntries_spell entries ht d (spellEntries entries ++ endTag :: r).length
      [] r (by simp [Syn.spell] at hlen; omega) (by simp)
    have hdigit : isDigit dictTag = false := rfl
    have hint : dictTag ≠ intTag := by decide
    have hlist : dictTag ≠ listTag := by decide
    simp only [Syn.spell, cons_append, append_assoc, nil_append, decodeValue,
      hdigit, hint, hlist, decodeDict, Bool.false_eq_true, if_false, if_true, ne_eq,
      not_true_eq_false, hentries, Syn.value]
    rfl

theorem decodeItems_spell : ∀ (ts : List Syn), AcceptedItems ts → ∀ (depth n : Nat)
    (result : List Value) (r : Bytes), (spellItems ts).length ≤ depth →
    (spellItems ts).length ≤ n →
    decodeItems (decodeValue depth) n (spellItems ts ++ endTag :: r) result =
      .ok (result ++ valueItems ts, r)
  | [], _, depth, n, result, r, _, _ => by
    simp [spellItems, decodeItems_endTag, valueItems]
  | t :: ts, ⟨ht, hts⟩, depth, n, result, r, hdepth, hn => by
    obtain ⟨b, s, hs, hb⟩ := t.spell_cons ht
    -- the item has at least one byte, so one round less is enough for the others
    have hpos := spell_length_pos ht
    simp only [spellItems, length_append] at hdepth hn
    obtain ⟨m, rfl⟩ : ∃ m, n = m + 1 := ⟨n - 1, by omega⟩
    have hitem := decodeValue_spell t ht depth (spellItems ts ++ endTag :: r) (by omega)
    have hrest := decodeItems_spell ts hts depth m (result ++ [t.value]) r (by omega) (by omega)
    simp only [spellItems, append_assoc]
    rw [hs, cons_append] at hitem ⊢
    simp only [decodeItems, if_neg hb, hitem, hrest, valueItems, append_assoc,
      cons_append, nil_append]

theorem decodeEntries_spell : ∀ (es : List (StrTok × Syn)), AcceptedEntries es →
    ∀ (depth n : Nat) (result : Dict) (r : Bytes), (spellEntries es).length ≤ depth →
    (spellEntries es).length ≤ n →
    decodeEntries (decodeValue depth) n (spellEntries es ++ endTag :: r) result =
      .ok ((valueEntries es).foldl (fun d p => Assoc.emplace d p.1 p.2) result, r)
  | [], _, depth, n, result, r, _, _ => by
    simp [spellEntries, decodeEntries_endTag, valueEntries]
  | (k, t) :: es, ⟨hk, ht, hes⟩, depth, n, result, r, hdepth, hn => by
    obtain ⟨b, s, hs, hb⟩ := k.spell_cons hk
    have hpos := strTok_spell_length_pos (k := k)
    simp only [spellEntries, length_append] at hdepth hn
    -- the key has at least one byte, so one round less is enough for the others
    obtain ⟨m, rfl⟩ : ∃ m, n = m + 1 := ⟨n - 1, by omega⟩
    have hkey := decodeString_spell hk (t.spell ++ (spellEntries es ++ endTag :: r))
    have hitem := decodeValue_spell t ht depth (spellEntries es ++ endTag :: r) (by omega)
    have hrest := decodeEntries_spell es hes depth m
      (Assoc.emplace result k.body t.value) r (by omega) (by omega)
    simp only [spellEntries, append_assoc]
    rw [hs, cons_append] at hkey ⊢
    simp only [decodeEntries, if_neg hb, hkey, hitem, hrest, valueEntries, foldl_cons]

end

theorem decodePrefix_spell (ht : t.Accepted) (r : Bytes) :
    decodePrefix (t.spell ++ r) = .ok (t.value, t.spell.length) := by
  have hdec := decodeValue_spell t ht (t.spell ++ r).length r (by simp)
  rw [decodePrefix, hdec]
  simp [Except.map]

theorem decode_spell (ht : t.Accepted) : decode t.spell = .ok t.value := by
  have hpre := decodePrefix_spell ht []
  rw [append_nil] at hpre
  simp [decode, hpre]

def StrTok.ofBytes (s : Bytes) : StrTok := ⟨printNat s.length, s⟩

mutual

def Syn.ofValue : Value → Syn
  | .int i => .int (printInt i.toInt)
  | .str s => .str (ofBytes s)
  | .list l => .list (ofItems l)
  | .dict d => .dict (ofEntries d)

def ofItems : List Value → List Syn
  | [] => []
  | v :: l => Syn.ofValue v :: ofItems l

def ofEntries : List (Bytes × Value) → List (StrTok × Syn)
  | [] => []
  | (k, v) :: d => (ofBytes k, Syn.ofValue v) :: ofEntries d

end

theorem StrTok.spell_ofBytes (s : Bytes) : (ofBytes s).spell = encodeString s := rfl

mutual

theorem spell_ofValue : ∀ v : Value, (Syn.ofValue v).spell = encode v
  | .int i => by simp [Syn.ofValue, Syn.spell, encode]
  | .str s => by simp [Syn.ofValue, Syn.spell, encode, spell_ofBytes]
  | .list l => by simp [Syn.ofValue, Syn.spell, encode, spellItems_ofItems l]
  | .dict d => by simp [Syn.ofValue, Syn.spell, encode, spellEntries_ofEntries d]

theorem spellItems_ofItems : ∀ l : List Value, spellItems (ofItems l) = encodeItems l
  | [] => rfl
  | v :: l => by simp [ofItems, spellItems, encodeItems, spell_ofValue v, spellItems_ofItems l]

theorem spellEntries_ofEntries : ∀ d : Dict, spellEntries (ofEntries d) = encodeEntries d
  | [] => rfl
  | (k, v) :: d => by
    simp [ofEntries, spellEntries, encodeEntries, spell_ofValue v, spellEntries_ofEntries d,
      spell_ofBytes]

end

theorem colon_not_mem_printNat (n : Nat) : colon ∉ printNat n := by
  intro hmem
  have := all_eq_true.mp (printNat_all_isDigit n) _ hmem
  exact absurd this (by decide)

theorem StrTok.accepted_ofBytes (hs : s.length < 2 ^ 63) : (ofBytes s).Accepted := by
  refine ⟨colon_not_mem_printNat _, _, _, fromChars_printNat hs, ?_⟩
  exact Int64.toInt_ofInt_of_le (by omega) (by omega)

mutual

theorem accepted_ofValue : ∀ v : Value, v.WF → (Syn.ofValue v).Accepted
  | .int i, _ => ⟨i, fromChars_printInt i⟩
  | .str s, hs => by
    refine ⟨accepted_ofBytes hs, ?_⟩
    cases hp : printNat s.length with
    | nil => exact absurd hp (printNat_ne_nil _)
    | cons b t =>
      have hd := printNat_all_isDigit s.length
      rw [hp] at hd
      exact ⟨b, by simp [ofBytes, hp], by simp_all⟩
  | .list l, hl => acceptedItems_ofItems l hl
  | .dict d, hd => acceptedEntries_ofEntries d hd.2

theorem acceptedItems_ofItems : ∀ l : List Value, Value.WFItems l → AcceptedItems (ofItems l)
  | [], _ => trivial
  | v :: l, ⟨hv, hl⟩ => ⟨accepted_ofValue v hv, acceptedItems_ofItems l hl⟩

theorem acceptedEntries_ofEntries : ∀ d : Dict, Value.WFEntries d → AcceptedEntries (ofEntries d)
  | [], _ => trivial
  | (_, v) :: d, ⟨hk, hv, hd⟩ =>
    ⟨accepted_ofBytes hk, accepted_ofValue v hv, acceptedEntries_ofEntries d hd⟩

end

mutual

theorem value_ofValue : ∀ v : Value, v.WF → (Syn.ofValue v).value = v
  | .int i, _ => by simp [Syn.ofValue, Syn.value, intOf_eq (fromChars_printInt i)]
  | .str s, _ => by simp [Syn.ofValue, Syn.value, ofBytes]
  | .list l, hl => by simp [Syn.ofValue, Syn.value, valueItems_ofItems l hl]
  | .dict d, hd => by
    -- a `std::map` iterates in key order, so rebuilding it changes nothing
    have hfold := Assoc.foldl_emplace_of_sorted [] hd.1
    simp only [Syn.ofValue, Syn.value, valueEntries_ofEntries d hd.2]
    rw [hfold, nil_append]

theorem valueItems_ofItems : ∀ l : List Value, Value.WFItems l → valueItems (ofItems l) = l
  | [], _ => rfl
  | v :: l, ⟨hv, hl⟩ => by simp [ofItems, valueItems, value_ofValue v hv, valueItems_ofItems l hl]

theorem valueEntries_ofEntries : ∀ d : Dict, Value.WFEntries d → valueEntries (ofEntries d) = d
  | [], _ => rfl
  | (_, v) :: d, ⟨_, hv, hd⟩ => by
    simp [ofEntries, valueEntries, value_ofValue v hv, valueEntries_ofEntries d hd, ofBytes]

end

variable {v : Value}

theorem decodeValue_encode (hv : v.WF) (depth : Nat) (r : Bytes) (hd : (encode v).length ≤ depth) :
    decodeValue depth (encode v ++ r) = .ok (v, r) := by
  have hspell := spell_ofValue v
  have := decodeValue_spell (Syn.ofValue v) (accepted_ofValue v hv) depth r (by rwa [hspell])
  rwa [hspell, value_ofValue v hv] at this

theorem decodePrefix_encode_append (hv : v.WF) (r : Bytes) :
    decodePrefix (encode v ++ r) = .ok (v, (encode v).length) := by
  have := decodePrefix_spell (accepted_ofValue v hv) r
  rwa [spell_ofValue, value_ofValue v hv] at this

theorem decode_encode (hv : v.WF) : decode (encode v) = .ok v := by
  have := decode_spell (accepted_ofValue v hv)
  rwa [spell_ofValue, value_ofValue v hv] at this

/-- Round trip: `decode_prefix` leaves what follows an encoded value, and `decode` throws. -/
theorem decodePrefix_encode (v : WFValue) (r : Bytes) :
    decodePrefix (encode v.1 ++ r) = .ok (v.1, (encode v.1).length) ∧
    decode (encode v.1) = .ok v.1 ∧
    (r ≠ [] → decode (encode v.1 ++ r) = .error .trailingData) := by
  have hpre := decodePrefix_encode_append v.2
  refine ⟨hpre r, ?_, ?_⟩
  · have := hpre []
    rw [append_nil] at this
    simp [decode, this]
  · intro hr
    -- fewer bytes are consumed than there are
    have hlen : (encode v.1).length ≠ (encode v.1 ++ r).length := by
      rw [length_append]
      have := length_pos_iff.mpr hr
      omega
    simp only [decode, hpre r, if_pos hlen]

end P2P.Bencode
