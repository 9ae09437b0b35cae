import P2P.Spec.BencodeSound

/-!
# The decoder and the grammar of bencode

What the decoder accepts is a word of the grammar and has its value, unless something else than
digits stands before a colon: `decode_string` does not look at where `from_chars` has stopped, and a
key may even start with a minus sign.
-/

namespace P2P.Bencode

open Decimal List

mutual

inductive Word : Bytes → Value → Prop
  | str {digits body : Bytes} (hne : digits ≠ []) (hdigits : digits.all isDigit)
      (hlen : digitsVal digits = body.length) : Word (digits ++ colon :: body) (.str body)
  | int {neg : Bool} {digits : Bytes} {i : Int64} (hne : digits ≠ [])
      (hdigits : digits.all isDigit) (hi : i.toInt = signedVal neg digits) :
      Word (intTag :: (numeral neg digits ++ [endTag])) (.int i)
  | list {b : Bytes} {l : List Value} (h : WordItems b l) :
      Word (listTag :: (b ++ [endTag])) (.list l)
  | dict {b : Bytes} {es : List (Bytes × Value)} (h : WordEntries b es) :
      Word (dictTag :: (b ++ [endTag])) (.dict (es.foldl (fun d p => Assoc.emplace d p.1 p.2) []))

inductive WordItems : Bytes → List Value → Prop
  | nil : WordItems [] []
  | cons {a b : Bytes} {v : Value} {l : List Value} (h : Word a v) (hs : WordItems b l) :
      WordItems (a ++ b) (v :: l)

inductive WordEntries : Bytes → List (Bytes × Value) → Prop
  | nil : WordEntries [] []
  | cons {k a b key : Bytes} {v : Value} {es : List (Bytes × Value)} (hk : Word k (.str key))
      (h : Word a v) (hs : WordEntries b es) : WordEntries (k ++ (a ++ b)) ((key, v) :: es)

end

mutual

/-- Nothing but digits stands before a colon. -/
def Syn.Plain : Syn → Prop
  | .int _ => True
  | .str tok => tok.len.all isDigit
  | .list items => PlainItems items
  | .dict entries => PlainEntries entries

def PlainItems : List Syn → Prop
  | [] => True
  | t :: ts => t.Plain ∧ PlainItems ts

def PlainEntries : List (StrTok × Syn) → Prop
  | [] => True
  | (k, t) :: es => k.len.all isDigit ∧ t.Plain ∧ PlainEntries es

end

theorem StrTok.word {k : StrTok} (hk : k.Accepted) (hplain : k.len.all isDigit) :
    Word k.spell (.str k.body) := by
  obtain ⟨-, i, n, hfc, hi⟩ := hk
  obtain ⟨hne, hval⟩ := fromChars_all_digits hplain hfc
  refine .str hne hplain ?_
  simp only [signedVal, Bool.false_eq_true, if_false] at hval
  omega

mutual

theorem Syn.word : ∀ t : Syn, t.Accepted → t.Plain → Word t.spell t.value
  | .int text, ⟨i, hi⟩, _ => by
    obtain ⟨neg, ds, htext, hne, hd, hval⟩ := fromChars_complete hi
    simp only [Syn.value, Syn.spell, intOf_eq hi]
    rw [htext]
    exact .int hne hd hval
  | .str tok, ht, hplain => tok.word ht.1 hplain
  | .list items, ht, hplain => .list (wordItems items ht hplain)
  | .dict entries, ht, hplain => .dict (wordEntries entries ht hplain)

theorem wordItems : ∀ ts : List Syn, AcceptedItems ts → PlainItems ts →
    WordItems (spellItems ts) (valueItems ts)
  | [], _, _ => .nil
  | t :: ts, ⟨ht, hts⟩, ⟨hp, hps⟩ => .cons (t.word ht hp) (wordItems ts hts hps)

theorem wordEntries : ∀ es : List (StrTok × Syn), AcceptedEntries es → PlainEntries es →
    WordEntries (spellEntries es) (valueEntries es)
  | [], _, _ => .nil
  | (k, t) :: es, ⟨hk, ht, hes⟩, ⟨hpk, hpt, hps⟩ =>
    .cons (k.word hk hpk) (t.word ht hpt) (wordEntries es hes hps)

end

/-! ## A word has no other reading -/

variable {w r r' : Bytes}

theorem Word.head {v : Value} (h : Word w v) : ∃ b rest, w = b :: rest ∧ b ≠ endTag := by
  cases h with
  | str hne hdigits =>
    obtain ⟨d, ds, rfl⟩ := exists_cons_of_ne_nil hne
    refine ⟨d, _, rfl, ?_⟩
    rintro rfl
    cases hdigits
  | int | list | dict => exact ⟨_, _, rfl, by decide⟩

/-- The first occurrence of a byte splits both lists. -/
theorem append_inj_of_not_mem {c : UInt8} {a b : Bytes} (ha : c ∉ a) (hb : c ∉ b)
    (h : a ++ c :: r = b ++ c :: r') : a = b ∧ r = r' := by
  have htake := congrArg (takeWhile (· != c)) h
  rw [takeWhile_ne_append ha, takeWhile_ne_append hb] at htake
  subst htake
  exact ⟨rfl, (cons.inj (append_cancel_left h)).2⟩

theorem tagged_inj {c c' : UInt8} {x y : Bytes}
    (h : c :: (x ++ [endTag]) ++ r = c' :: (y ++ [endTag]) ++ r') :
    c = c' ∧ x ++ endTag :: r = y ++ endTag :: r' := by
  simpa using h

theorem digit_of_cons_eq {c : UInt8} {x digits y : Bytes} (hne : digits ≠ [])
    (hdigits : digits.all isDigit) (h : c :: x = digits ++ colon :: y ++ r) : isDigit c := by
  obtain ⟨d, ds, rfl⟩ := exists_cons_of_ne_nil hne
  rw [(cons.inj h).1]
  exact (Bool.and_eq_true_iff.mp hdigits).1

theorem StrTok.plain_of_word {k : StrTok} (hk : k.Accepted) {digits body : Bytes}
    (hdigits : digits.all isDigit) (hlen : digitsVal digits = body.length)
    (h : k.spell ++ r = digits ++ colon :: body ++ r') : k.len.all isDigit ∧ r = r' := by
  obtain ⟨hcolon, i, n, hfc, hi⟩ := hk
  have hcolon' : colon ∉ digits := fun hmem => by cases all_eq_true.mp hdigits _ hmem
  rw [StrTok.spell, append_assoc, append_assoc] at h
  obtain ⟨rfl, hbody⟩ := append_inj_of_not_mem hcolon hcolon' h
  have hval := (fromChars_all_digits hdigits hfc).2
  simp only [signedVal, Bool.false_eq_true, if_false] at hval
  exact ⟨hdigits, (append_inj hbody (by omega)).2⟩

mutual

theorem Syn.plain_of_word : ∀ t : Syn, t.Accepted → ∀ {w r r' : Bytes} {v : Value}, Word w v →
    t.spell ++ r = w ++ r' → t.Plain ∧ r = r'
  | .int text, ⟨i, hi⟩, w, r, r', v, hw, h => by
    cases hw with
    | int _ hdigits =>
      refine ⟨trivial, (append_inj_of_not_mem (endTag_not_mem_of_complete hi) ?_
        (tagged_inj h).2).2⟩
      intro hmem
      cases all_eq_true.mp (numeral_all _ hdigits) _ hmem
    | str hne hdigits => cases digit_of_cons_eq hne hdigits h
    | list | dict => cases (tagged_inj h).1
  | .str tok, ⟨hk, b, hhead, hb⟩, w, r, r', v, hw, h => by
    obtain ⟨ds, hds⟩ := head?_eq_some_iff.mp hhead
    cases hw with
    | str _ hdigits hlen => exact tok.plain_of_word hk hdigits hlen h
    | int | list | dict =>
      simp only [Syn.spell, StrTok.spell, hds, cons_append] at h
      rw [(cons.inj h).1] at hb
      cases hb
  | .list items, ht, w, r, r', v, hw, h => by
    cases hw with
    | list hitems => exact plainItems_of_word items ht hitems (tagged_inj h).2
    | str hne hdigits => cases digit_of_cons_eq hne hdigits h
    | int | dict => cases (tagged_inj h).1
  | .dict entries, ht, w, r, r', v, hw, h => by
    cases hw with
    | dict hentries => exact plainEntries_of_word entries ht hentries (tagged_inj h).2
    | str hne hdigits => cases digit_of_cons_eq hne hdigits h
    | int | list => cases (tagged_inj h).1

theorem plainItems_of_word : ∀ ts : List Syn, AcceptedItems ts → ∀ {w r r' : Bytes}
    {l : List Value}, WordItems w l → spellItems ts ++ endTag :: r = w ++ endTag :: r' →
      PlainItems ts ∧ r = r'
  | [], _, w, r, r', l, hw, h => by
    cases hw with
    | nil => exact ⟨trivial, (cons.inj h).2⟩
    | cons ha =>
      obtain ⟨b, rest, rfl, hb⟩ := ha.head
      exact absurd (cons.inj h).1.symm hb
  | t :: ts, ⟨ht, hts⟩, w, r, r', l, hw, h => by
    cases hw with
    | nil =>
      obtain ⟨b, rest, hspell, hb⟩ := Syn.spell_cons ht
      rw [spellItems, hspell] at h
      exact absurd (cons.inj h).1 hb
    | cons ha hrest =>
      rw [spellItems, append_assoc, append_assoc] at h
      obtain ⟨hplain, hrest'⟩ := t.plain_of_word ht ha h
      obtain ⟨hplains, heq⟩ := plainItems_of_word ts hts hrest hrest'
      exact ⟨⟨hplain, hplains⟩, heq⟩

theorem plainEntries_of_word : ∀ es : List (StrTok × Syn), AcceptedEntries es →
    ∀ {w r r' : Bytes} {l : List (Bytes × Value)}, WordEntries w l →
      spellEntries es ++ endTag :: r = w ++ endTag :: r' → PlainEntries es ∧ r = r'
  | [], _, w, r, r', l, hw, h => by
    cases hw with
    | nil => exact ⟨trivial, (cons.inj h).2⟩
    | cons hk =>
      obtain ⟨b, rest, rfl, hb⟩ := hk.head
      exact absurd (cons.inj h).1.symm hb
  | (k, t) :: es, ⟨hk, ht, hes⟩, w, r, r', l, hw, h => by
    cases hw with
    | nil =>
      obtain ⟨b, rest, hspell, hb⟩ := k.spell_cons hk
      rw [spellEntries, hspell] at h
      exact absurd (cons.inj h).1 hb
    | cons hkey ha hrest =>
      simp only [spellEntries, append_assoc] at h
      cases hkey with
      | str _ hdigits hlen =>
        obtain ⟨hplain, h₁⟩ := k.plain_of_word hk hdigits hlen h
        obtain ⟨hplain', h₂⟩ := t.plain_of_word ht ha h₁
        obtain ⟨hplains, heq⟩ := plainEntries_of_word es hes hrest h₂
        exact ⟨⟨hplain, hplain', hplains⟩, heq⟩

end

/-- A reading of the bytes in which something else than digits stands before a colon: behind the
    digits of a length, or a minus sign before the zeros of a key's. -/
def Loose (b : Bytes) : Prop := ∃ t : Syn, t.Accepted ∧ t.spell = b ∧ ¬ t.Plain

/-- The decoder accepts `b` only as a word of the grammar and with the value that it denotes, and
    throws for everything else, exactly if `b` has no such loose reading. -/
theorem decode_only_words (b : Bytes) :
    ((∀ v, decode b = .ok v → Word b v) ∧
      ((∀ v, ¬ Word b v) → ∃ e, decode b = .error e)) ↔ ¬ Loose b := by
  constructor
  · rintro ⟨hword, -⟩ ⟨t, ht, rfl, hloose⟩
    exact hloose (t.plain_of_word ht (r := []) (hword _ (decode_spell ht)) rfl).1
  · intro hplain
    have hword : ∀ v, decode b = .ok v → Word b v := by
      intro v hv
      obtain ⟨t, ht, hspell, rfl⟩ := decode_ok_iff.mp hv
      rw [← hspell]
      exact t.word ht (not_not.mp fun h => hplain ⟨t, ht, hspell, h⟩)
    refine ⟨hword, fun hnone => ?_⟩
    cases h : decode b with
    | error e => exact ⟨e, rfl⟩
    | ok v => exact absurd (hword v h) (hnone v)

/-- A string with something else between the digits and the colon is accepted. -/
theorem decode_no_word :
    decode (.ascii "4x:spam") = .ok (.str (.ascii "spam")) ∧
      ∀ v, ¬ Word (.ascii "4x:spam") v := by
  refine ⟨by rfl, fun v hv => ?_⟩
  generalize hb : Bytes.ascii "4x:spam" = b at hv
  cases hv with
  | str hne hdigits hlen =>
    next digits body =>
    rcases digits with _ | ⟨a, _ | ⟨c, digits⟩⟩
    · exact hne rfl
    · cases (cons.inj (cons.inj hb).2).1
    · -- the second byte is no digit
      have hc : 120 = c := (cons.inj (cons.inj hb).2).1
      rw [← hc] at hdigits
      simp only [all_cons, Bool.and_eq_true] at hdigits
      exact absurd hdigits.2.1 (by decide)
  | int | list | dict => cases (cons.inj hb).1

end P2P.Bencode
