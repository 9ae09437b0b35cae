import P2P.Spec.BencodeSound

/-!
# Bencode: when encoding back is the identity

Re-encoding the value of an accepted tree gives its spelling back exactly when the tree is
canonical.
-/

namespace P2P.Bencode

open Decimal List

theorem StrTok.encodeString_body {k : StrTok} (hk : k.Accepted) :
    encodeString k.body = k.spell ↔ canonNat k.len := by
  obtain ⟨-, i, n, hfc, hi⟩ := hk
  have hiff := printNat_iff_canonNat hfc hi
  rw [← hiff, encodeString, StrTok.spell]
  exact append_left_inj _

private theorem map_fst_valueEntries : ∀ es : List (StrTok × Syn),
    (valueEntries es).map (·.1) = es.map (·.1.body)
  | [] => rfl
  | (k, t) :: es => by simp [valueEntries, map_fst_valueEntries es]

private theorem sorted_valueEntries (es : List (StrTok × Syn)) :
    Assoc.Sorted (valueEntries es) ↔ (es.map (·.1.body)).Pairwise (· < ·) := by
  rw [← map_fst_valueEntries, pairwise_map]
  exact Iff.rfl

mutual

private theorem encode_value_of_canonical : ∀ t : Syn, t.Accepted → t.Canonical →
    encode t.value = t.spell
  | .int text, ⟨i, hi⟩, hc => by
    have := (printInt_iff_canonInt hi).mpr hc
    simp [Syn.value, intOf_eq hi, encode, Syn.spell, this]
  | .str tok, ht, hc => by
    have := (StrTok.encodeString_body ht.1).mpr hc
    simp [Syn.value, encode, Syn.spell, this]
  | .list items, ht, hc => by
    simp [Syn.value, encode, Syn.spell, encodeItems_of_canonical items ht hc]
  | .dict entries, ht, ⟨hsorted, hc⟩ => by
    -- the keys are in order, so inserting the entries leaves them where they are
    have hfold := Assoc.foldl_emplace_of_sorted []
      ((sorted_valueEntries entries).mpr hsorted)
    simp only [Syn.value, encode, Syn.spell]
    rw [hfold, nil_append, encodeEntries_of_canonical entries ht hc]

private theorem encodeItems_of_canonical : ∀ ts : List Syn, AcceptedItems ts → CanonicalItems ts →
    encodeItems (valueItems ts) = spellItems ts
  | [], _, _ => rfl
  | t :: ts, ⟨ht, hts⟩, ⟨hc, hcs⟩ => by
    simp [valueItems, encodeItems, spellItems, encode_value_of_canonical t ht hc,
      encodeItems_of_canonical ts hts hcs]

private theorem encodeEntries_of_canonical : ∀ es : List (StrTok × Syn), AcceptedEntries es →
    CanonicalEntries es → encodeEntries (valueEntries es) = spellEntries es
  | [], _, _ => rfl
  | (k, t) :: es, ⟨hk, ht, hes⟩, ⟨hck, hc, hcs⟩ => by
    simp [valueEntries, encodeEntries, spellEntries, encode_value_of_canonical t ht hc,
      encodeEntries_of_canonical es hes hcs, (StrTok.encodeString_body hk).mpr hck]

end

private theorem encode_append_inj {v : Value} (hv : v.WF) {t : Syn} (ht : t.Accepted)
    {r r' : Bytes} (h : encode v ++ r = t.spell ++ r') : v = t.value ∧ r = r' := by
  -- decode the bytes twice, with a depth that is enough for both readings
  have hleft := decodeValue_encode hv ((encode v).length + t.spell.length) r (by omega)
  have hright := decodeValue_spell t ht ((encode v).length + t.spell.length) r' (by omega)
  rw [h, hright] at hleft
  simp only [Except.ok.injEq, Prod.mk.injEq] at hleft
  exact ⟨hleft.1.symm, hleft.2.symm⟩

private theorem encodeString_append_inj {s : Bytes} (hs : s.length < 2 ^ 63) {k : StrTok}
    (hk : k.Accepted) {r r' : Bytes} (h : encodeString s ++ r = k.spell ++ r') :
    s = k.body ∧ r = r' := by
  have hleft := decodeString_spell (StrTok.accepted_ofBytes hs) r
  have hright := decodeString_spell hk r'
  rw [StrTok.spell_ofBytes, h, hright] at hleft
  simp only [Except.ok.injEq, Prod.mk.injEq] at hleft
  exact ⟨hleft.1.symm, hleft.2.symm⟩

private theorem eq_valueEntries_of_encode (d : Dict) (es : List (StrTok × Syn))
    (hd : Value.WFEntries d) (hes : AcceptedEntries es)
    (h : encodeEntries d = spellEntries es) : d = valueEntries es := by
  induction d generalizing es with
  | nil =>
    cases es with
    | nil => rfl
    | cons e es =>
      obtain ⟨k, t⟩ := e
      simp [encodeEntries, spellEntries, StrTok.spell] at h
  | cons p d ih =>
    obtain ⟨key, v⟩ := p
    obtain ⟨hkey, hv, hd'⟩ := hd
    cases es with
    | nil => simp [encodeEntries, spellEntries, encodeString] at h
    | cons e es =>
      obtain ⟨k, t⟩ := e
      obtain ⟨hk, ht, hes'⟩ := hes
      -- both texts start with the key and the value of the first entry
      simp only [encodeEntries, spellEntries, append_assoc] at h
      obtain ⟨rfl, hval⟩ := encodeString_append_inj hkey hk h
      obtain ⟨rfl, hrest⟩ := encode_append_inj hv ht hval
      rw [valueEntries, ← ih es hd' hes' hrest]

mutual

private theorem canonical_of_encode_value : ∀ t : Syn, t.Accepted → encode t.value = t.spell →
    t.Canonical
  | .int text, ⟨i, hi⟩, h => by
    refine (printInt_iff_canonInt hi).mp ?_
    simpa [Syn.value, intOf_eq hi, encode, Syn.spell] using h
  | .str tok, ht, h => by
    refine (StrTok.encodeString_body ht.1).mp ?_
    simpa [Syn.value, encode, Syn.spell] using h
  | .list items, ht, h => by
    refine canonicalItems_of_encode items ht ?_
    simpa [Syn.value, encode, Syn.spell] using h
  | .dict entries, ht, h => by
    have hwf := wf_value (.dict entries) ht
    simp only [Syn.value, encode, Syn.spell, cons.injEq, true_and] at h
    have henc := append_cancel_right h
    -- the entries of the map are those of the text, so the text was in order
    have heq := eq_valueEntries_of_encode _ entries hwf.2 ht henc
    have hsorted : Assoc.Sorted (valueEntries entries) := by
      rw [← heq]
      exact Assoc.sorted_foldl_emplace List.Pairwise.nil
    rw [heq] at henc
    exact ⟨(sorted_valueEntries entries).mp hsorted, canonicalEntries_of_encode entries ht henc⟩

private theorem canonicalItems_of_encode : ∀ ts : List Syn, AcceptedItems ts →
    encodeItems (valueItems ts) = spellItems ts → CanonicalItems ts
  | [], _, _ => trivial
  | t :: ts, ⟨ht, hts⟩, h => by
    simp only [valueItems, encodeItems, spellItems] at h
    -- the first items end at the same place in both texts
    obtain ⟨-, hrest⟩ := encode_append_inj (wf_value t ht) ht h
    rw [hrest] at h
    exact ⟨canonical_of_encode_value t ht (append_cancel_right h),
      canonicalItems_of_encode ts hts hrest⟩

private theorem canonicalEntries_of_encode : ∀ es : List (StrTok × Syn), AcceptedEntries es →
    encodeEntries (valueEntries es) = spellEntries es → CanonicalEntries es
  | [], _, _ => trivial
  | (k, t) :: es, ⟨hk, ht, hes⟩, h => by
    simp only [valueEntries, encodeEntries, spellEntries, append_assoc] at h
    -- cut off the key, then its value: what remains are the other entries
    obtain ⟨-, hval⟩ := encodeString_append_inj (StrTok.body_lt hk) hk h
    obtain ⟨-, hrest⟩ := encode_append_inj (wf_value t ht) ht hval
    rw [hval] at h
    rw [hrest] at hval
    exact ⟨(StrTok.encodeString_body hk).mp (append_cancel_right h),
      canonical_of_encode_value t ht (append_cancel_right hval),
      canonicalEntries_of_encode es hes hrest⟩

end

theorem encode_value_iff_canonical {t : Syn} (ht : t.Accepted) :
    encode t.value = t.spell ↔ t.Canonical :=
  ⟨canonical_of_encode_value t ht, encode_value_of_canonical t ht⟩

theorem encode_decode_iff_canonical {b : Bytes} {v : Value} (h : decode b = .ok v) :
    encode v = b ↔ CanonicalBencoding b := by
  constructor
  · intro henc
    obtain ⟨t, ht, hspell, rfl⟩ := decode_ok_iff.mp h
    exact ⟨t, ht, (encode_value_iff_canonical ht).mp (by rw [henc, hspell]), hspell⟩
  · intro hcanon
    obtain ⟨t, ht, hc, rfl⟩ := hcanon
    have hdec := decode_spell ht
    rw [h] at hdec
    simp only [Except.ok.injEq] at hdec
    rw [hdec]
    exact (encode_value_iff_canonical ht).mpr hc

theorem encode_ne_nil {v : Value} (hv : v.WF) : encode v ≠ [] := by
  intro hnil
  have h := decode_encode hv
  rw [hnil] at h
  cases h

/-- Encoded values can follow each other without anything in between: the bytes of a sequence of
    values say what the values are. -/
theorem encode_uniquely_decodable :
    Function.Injective fun vs : List WFValue => vs.flatMap fun v => encode v.1 := by
  intro vs
  induction vs with
  | nil =>
    intro ws h
    cases ws with
    | nil => rfl
    | cons w ws => exact absurd (append_eq_nil_iff.mp h.symm).1 (encode_ne_nil w.2)
  | cons v vs ih =>
    intro ws h
    cases ws with
    | nil => exact absurd (append_eq_nil_iff.mp h).1 (encode_ne_nil v.2)
    | cons w ws =>
      -- both values are read at the start of the same bytes
      have hv := decodePrefix_encode_append v.2 (vs.flatMap fun v => encode v.1)
      have hw := decodePrefix_encode_append w.2 (ws.flatMap fun v => encode v.1)
      simp only [flatMap_cons] at h
      rw [h, hw] at hv
      have heq : v = w := Subtype.ext (Prod.mk.inj (Except.ok.inj hv)).1.symm
      subst heq
      rw [ih (append_cancel_left h)]

end P2P.Bencode
