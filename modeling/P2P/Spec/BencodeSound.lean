import P2P.Spec.BencodeComplete

/-!
# Bencode: what the decoder accepts

Whatever the decoder accepts is the spelling of an accepted tree; with `decodeValue_spell` these
describe it exactly.
-/

namespace P2P.Bencode

open Decimal List Except

private theorem not_mem_takeWhile_ne (c : UInt8) (s : Bytes) : c ∉ s.takeWhile (· != c) := by
  intro hmem
  have := all_eq_true.mp (all_takeWhile (p := (· != c)) (l := s)) c hmem
  simp at this

variable {r : Bytes}

private theorem split_at {c b : UInt8} {s : Bytes} (h : s.dropWhile (· != c) = b :: r) :
    s = s.takeWhile (· != c) ++ c :: r := by
  have hb : b = c := by
    have hhead := head?_dropWhile_not (· != c) s
    rw [h] at hhead
    simpa using hhead
  subst hb
  rw [← h, takeWhile_append_dropWhile]

variable {data : Bytes}

theorem decodeString_sound {s : Bytes} (h : decodeString data = .ok (s, r)) :
    ∃ k : StrTok, k.Accepted ∧ data = k.spell ++ r ∧ k.body = s ∧
      k.len = data.takeWhile (· != colon) := by
  simp only [decodeString] at h
  split at h
  · cases h
  · next b body hdrop =>
    cases hfc : fromChars (data.takeWhile (· != colon)) with
    | error e => simp only [hfc] at h; cases h
    | ok p =>
      obtain ⟨len, n⟩ := p
      simp only [hfc] at h
      split at h
      · cases h
      · next hneg =>
        split at h
        · cases h
        · next hle =>
          simp only [ok.injEq, Prod.mk.injEq] at h
          obtain ⟨rfl, rfl⟩ := h
          -- the text before the colon, and as many bytes behind it as it says
          refine ⟨⟨data.takeWhile (· != colon), body.take len.toInt.toNat⟩,
            ⟨not_mem_takeWhile_ne _ _, len, n, hfc, ?_⟩, ?_, rfl, rfl⟩
          · simp only [length_take]
            omega
          · have hsplit := split_at hdrop
            simp only [StrTok.spell, append_assoc, cons_append, take_append_drop]
            exact hsplit

theorem decodeInteger_sound {i : Int64} (h : decodeInteger data = .ok (i, r)) :
    ∃ text, fromChars text = .ok (i, text.length) ∧ data = intTag :: (text ++ endTag :: r) := by
  cases data with
  | nil => cases h
  | cons b data =>
    simp only [decodeInteger] at h
    split at h
    · cases h
    · next hb =>
      split at h
      · cases h
      · next b' rest hdrop =>
        cases hfc : fromChars (data.takeWhile (· != endTag)) with
        | error e => simp only [hfc] at h; cases h
        | ok p =>
          obtain ⟨i', n⟩ := p
          simp only [hfc] at h
          split at h
          · cases h
          · next hn =>
            simp only [ok.injEq, Prod.mk.injEq] at h
            obtain ⟨rfl, rfl⟩ := h
            -- `from_chars` has read everything up to the `e`
            have hlen : n = (data.takeWhile (· != endTag)).length := not_not.mp hn
            have hb' : b = intTag := not_not.mp hb
            refine ⟨_, hlen ▸ hfc, ?_⟩
            rw [hb', ← split_at hdrop]

/-- The decoder of one item only accepts spellings of accepted trees. -/
private def SoundItem (item : Bytes → Except BencodeError (Value × Bytes)) : Prop :=
  ∀ data v r, item data = .ok (v, r) → ∃ t : Syn, t.Accepted ∧ data = t.spell ++ r ∧ t.value = v

variable {item : Bytes → Except BencodeError (Value × Bytes)}

private theorem decodeItems_ok {n : Nat} {result l : List Value}
    (h : decodeItems item n data result = .ok (l, r)) :
    (data = endTag :: r ∧ l = result) ∨
      ∃ m v rest, n = m + 1 ∧ item data = .ok (v, rest) ∧
        decodeItems item m rest (result ++ [v]) = .ok (l, r) := by
  cases data with
  | nil => simp [decodeItems] at h
  | cons b data =>
    by_cases hb : b = endTag
    · left
      rw [hb, decodeItems_endTag] at h
      obtain ⟨rfl, rfl⟩ := Prod.mk.inj (ok.inj h)
      exact ⟨by rw [hb], rfl⟩
    · right
      cases n with
      | zero => simp [decodeItems, hb] at h
      | succ m =>
        simp only [decodeItems, if_neg hb] at h
        cases hi : item (b :: data) with
        | error e => simp [hi] at h
        | ok p =>
          simp only [hi] at h
          exact ⟨m, p.1, p.2, rfl, rfl, h⟩

private theorem decodeItems_sound (hitem : SoundItem item) (n : Nat) (data : Bytes)
    (result l : List Value) (r : Bytes) (h : decodeItems item n data result = .ok (l, r)) :
    ∃ ts, AcceptedItems ts ∧ data = spellItems ts ++ endTag :: r ∧ l = result ++ valueItems ts := by
  induction n using Nat.strongRecOn generalizing data result with
  | ind n ih =>
    cases decodeItems_ok h with
    | inl hend =>
      obtain ⟨rfl, rfl⟩ := hend
      exact ⟨[], trivial, by simp [spellItems], by simp [valueItems]⟩
    | inr hmore =>
      obtain ⟨m, v, rest, rfl, hi, hrest⟩ := hmore
      -- the tree of the item that was read, then the trees of the others
      obtain ⟨t, ht, rfl, rfl⟩ := hitem _ _ _ hi
      obtain ⟨ts, hts, rfl, rfl⟩ := ih m (Nat.lt_succ_self m) rest _ hrest
      exact ⟨t :: ts, ⟨ht, hts⟩, by simp [spellItems], by simp [valueItems]⟩

private theorem decodeEntries_ok {n : Nat} {result d : Dict}
    (h : decodeEntries item n data result = .ok (d, r)) :
    (data = endTag :: r ∧ d = result) ∨
      ∃ m key rest v rest', n = m + 1 ∧ decodeString data = .ok (key, rest) ∧
        item rest = .ok (v, rest') ∧
        decodeEntries item m rest' (Assoc.emplace result key v) = .ok (d, r) := by
  cases data with
  | nil => simp [decodeEntries] at h
  | cons b data =>
    by_cases hb : b = endTag
    · left
      rw [hb, decodeEntries_endTag] at h
      obtain ⟨rfl, rfl⟩ := Prod.mk.inj (ok.inj h)
      exact ⟨by rw [hb], rfl⟩
    · right
      cases n with
      | zero => simp [decodeEntries, hb] at h
      | succ m =>
        simp only [decodeEntries, if_neg hb] at h
        cases hs : decodeString (b :: data) with
        | error e => simp [hs] at h
        | ok p =>
          simp only [hs] at h
          cases hi : item p.2 with
          | error e => simp [hi] at h
          | ok q =>
            simp only [hi] at h
            exact ⟨m, p.1, p.2, q.1, q.2, rfl, rfl, hi, h⟩

private theorem decodeEntries_sound (hitem : SoundItem item) (n : Nat) (data : Bytes)
    (result d : Dict) (r : Bytes) (h : decodeEntries item n data result = .ok (d, r)) :
    ∃ es, AcceptedEntries es ∧ data = spellEntries es ++ endTag :: r ∧
      d = (valueEntries es).foldl (fun d p => Assoc.emplace d p.1 p.2) result := by
  induction n using Nat.strongRecOn generalizing data result with
  | ind n ih =>
    cases decodeEntries_ok h with
    | inl hend =>
      obtain ⟨rfl, rfl⟩ := hend
      exact ⟨[], trivial, by simp [spellEntries], by simp [valueEntries]⟩
    | inr hmore =>
      obtain ⟨m, key, rest, v, rest', rfl, hs, hi, hrest⟩ := hmore
      -- the key, its value, then the other entries
      obtain ⟨k, hk, rfl, rfl, -⟩ := decodeString_sound hs
      obtain ⟨t, ht, rfl, rfl⟩ := hitem _ _ _ hi
      obtain ⟨es, hes, rfl, rfl⟩ := ih m (Nat.lt_succ_self m) rest' _ hrest
      exact ⟨(k, t) :: es, ⟨hk, ht, hes⟩, by simp [spellEntries], by simp [valueEntries]⟩

private theorem map_eq_ok {α β : Type} {x : Except BencodeError α} {f : α → β} {y : β}
    (h : x.map f = .ok y) : ∃ a, x = .ok a ∧ f a = y := by
  cases x with
  | error e => exact nomatch h
  | ok a => exact ⟨a, rfl, ok.inj h⟩

theorem decodeValue_sound (depth : Nat) : SoundItem (decodeValue depth) := by
  induction depth with
  | zero =>
    intro data v r h
    cases data <;> simp [decodeValue] at h
  | succ depth ih =>
    intro data v r h
    cases data with
    | nil => simp [decodeValue] at h
    | cons b data =>
      -- the first byte selects the type, as in the code
      simp only [decodeValue] at h
      split at h
      · next hdigit =>
        obtain ⟨⟨s, rest⟩, hs, heq⟩ := map_eq_ok h
        cases heq
        obtain ⟨k, hk, hdata, rfl, hlen⟩ := decodeString_sound hs
        -- the digit that selected this branch is the first byte of the length
        have hb : (b != colon) = true := by
          simp only [bne_iff_ne]
          rintro rfl
          exact absurd hdigit (by decide)
        refine ⟨.str k, ⟨hk, b, ?_, hdigit⟩, hdata, rfl⟩
        rw [hlen, takeWhile_cons, if_pos hb, head?_cons]
      · split at h
        · obtain ⟨⟨i, rest⟩, hi, heq⟩ := map_eq_ok h
          cases heq
          obtain ⟨text, htext, hdata⟩ := decodeInteger_sound hi
          exact ⟨.int text, ⟨i, htext⟩, by simp [hdata, Syn.spell],
            by simp [Syn.value, intOf_eq htext]⟩
        · split at h
          · next hb =>
            obtain ⟨⟨l, rest⟩, hl, heq⟩ := map_eq_ok h
            cases heq
            simp only [decodeList, hb, ne_eq, not_true_eq_false, if_false] at hl
            obtain ⟨ts, hts, rfl, rfl⟩ := decodeItems_sound ih _ _ _ _ _ hl
            exact ⟨.list ts, hts, by simp [Syn.spell, hb], by simp [Syn.value]⟩
          · split at h
            · next hb =>
              obtain ⟨⟨d, rest⟩, hd, heq⟩ := map_eq_ok h
              cases heq
              simp only [decodeDict, hb, ne_eq, not_true_eq_false, if_false] at hd
              obtain ⟨es, hes, rfl, rfl⟩ := decodeEntries_sound ih _ _ _ _ _ hd
              exact ⟨.dict es, hes, by simp [Syn.spell, hb], by simp [Syn.value]⟩
            · cases h

theorem decode_ok_iff {v : Value} :
    decode data = .ok v ↔ ∃ t : Syn, t.Accepted ∧ t.spell = data ∧ t.value = v := by
  constructor
  · intro h
    simp only [decode, decodePrefix] at h
    cases hv : decodeValue data.length data with
    | error e => simp [hv, Except.map] at h
    | ok p =>
      obtain ⟨v', rest⟩ := p
      simp only [hv, Except.map] at h
      split at h
      · cases h
      · next hlen =>
        simp only [Except.ok.injEq] at h
        subst h
        obtain ⟨t, ht, hdata, hval⟩ := decodeValue_sound _ _ _ _ hv
        -- everything was consumed, so nothing is left
        have hrest : rest = [] := by
          have := congrArg List.length hdata
          rw [length_append] at this
          exact length_eq_zero_iff.mp (by omega)
        exact ⟨t, ht, by simp [hdata, hrest], hval⟩
  · rintro ⟨t, ht, rfl, rfl⟩
    exact decode_spell ht

theorem getLast?_of_decode_dict {d : Dict} (h : decode data = .ok (.dict d)) :
    data.getLast? = some endTag := by
  obtain ⟨t, -, rfl, hval⟩ := decode_ok_iff.mp h
  cases t with
  | dict entries => rw [Syn.spell, ← cons_append, getLast?_concat]
  | int text => exact nomatch hval
  | str tok => exact nomatch hval
  | list items => exact nomatch hval

theorem StrTok.body_lt {k : StrTok} (hk : k.Accepted) : k.body.length < 2 ^ 63 := by
  obtain ⟨-, i, n, -, hi⟩ := hk
  have := i.toInt_lt
  omega

private theorem mem_of_mem_foldl_emplace {l : Dict} {p : Bytes × Value}
    (h : p ∈ l.foldl (fun d q => Assoc.emplace d q.1 q.2) []) : p ∈ l := by
  have hfind := (Assoc.find?_eq_some (Assoc.sorted_foldl_emplace List.Pairwise.nil)).mpr h
  rw [Assoc.find?_foldl_emplace List.Pairwise.nil, Assoc.find?, Option.none_or] at hfind
  exact (Assoc.perm_erase hfind).mem_iff.mpr (mem_cons_self ..)

mutual

theorem wf_value : ∀ t : Syn, t.Accepted → t.value.WF
  | .int _, _ => trivial
  | .str _, ht => StrTok.body_lt ht.1
  | .list items, ht => wfItems_valueItems items ht
  | .dict entries, ht => by
    refine ⟨Assoc.sorted_foldl_emplace List.Pairwise.nil, Value.wfEntries_of_forall fun p hp => ?_⟩
    exact wf_valueEntries entries ht p (mem_of_mem_foldl_emplace hp)

theorem wfItems_valueItems : ∀ ts : List Syn, AcceptedItems ts → Value.WFItems (valueItems ts)
  | [], _ => trivial
  | t :: ts, ⟨ht, hts⟩ => ⟨wf_value t ht, wfItems_valueItems ts hts⟩

theorem wf_valueEntries : ∀ es : List (StrTok × Syn), AcceptedEntries es →
    ∀ p ∈ valueEntries es, p.1.length < 2 ^ 63 ∧ p.2.WF
  | [], _, p, hp => nomatch hp
  | (k, t) :: es, ⟨hk, ht, hes⟩, p, hp => by
    cases mem_cons.mp hp with
    | inl h => subst h; exact ⟨StrTok.body_lt hk, wf_value t ht⟩
    | inr h => exact wf_valueEntries es hes p h

end

end P2P.Bencode
