import P2P.Spec.FromChars

/-!
# The concrete syntax the decoder reads

`Syn` is the syntax tree of a bencoded text with everything that its value forgets: the spelling of
numbers, what stands before a colon, the order and the repetitions of keys.
-/

namespace P2P.Bencode

structure StrTok where
  len : Bytes
  body : Bytes

inductive Syn where
  | int (text : Bytes)
  | str (tok : StrTok)
  | list (items : List Syn)
  | dict (entries : List (StrTok × Syn))

/-! ## Spelling -/

def StrTok.spell (t : StrTok) : Bytes := t.len ++ colon :: t.body

mutual

def Syn.spell : Syn → Bytes
  | .int text => intTag :: (text ++ [endTag])
  | .str tok => tok.spell
  | .list items => listTag :: (spellItems items ++ [endTag])
  | .dict entries => dictTag :: (spellEntries entries ++ [endTag])

def spellItems : List Syn → Bytes
  | [] => []
  | t :: ts => t.spell ++ spellItems ts

def spellEntries : List (StrTok × Syn) → Bytes
  | [] => []
  | (k, t) :: es => k.spell ++ (t.spell ++ spellEntries es)

end

/-! ## Meaning -/

def intOf (text : Bytes) : Int64 :=
  match fromChars text with
  | .ok (i, _) => i
  | .error _ => 0

mutual

def Syn.value : Syn → Value
  | .int text => .int (intOf text)
  | .str tok => .str tok.body
  | .list items => .list (valueItems items)
  | .dict entries => .dict ((valueEntries entries).foldl (fun d p => Assoc.emplace d p.1 p.2) [])

def valueItems : List Syn → List Value
  | [] => []
  | t :: ts => t.value :: valueItems ts

def valueEntries : List (StrTok × Syn) → List (Bytes × Value)
  | [] => []
  | (k, t) :: es => (k.body, t.value) :: valueEntries es

end

/-! ## What the decoder accepts -/

/-- `from_chars` reads the length of the body from the text before the colon. -/
def StrTok.Accepted (t : StrTok) : Prop :=
  colon ∉ t.len ∧ ∃ i n, fromChars t.len = .ok (i, n) ∧ i.toInt = t.body.length

mutual

def Syn.Accepted : Syn → Prop
  | .int text => ∃ i, fromChars text = .ok (i, text.length)
  | .str tok => tok.Accepted ∧ ∃ b, tok.len.head? = some b ∧ Decimal.isDigit b
  | .list items => AcceptedItems items
  | .dict entries => AcceptedEntries entries

def AcceptedItems : List Syn → Prop
  | [] => True
  | t :: ts => t.Accepted ∧ AcceptedItems ts

/-- Every key and every value is accepted. A key need not start with a digit. -/
def AcceptedEntries : List (StrTok × Syn) → Prop
  | [] => True
  | (k, t) :: es => k.Accepted ∧ t.Accepted ∧ AcceptedEntries es

end

/-! ## Canonical trees -/

mutual

/-- At every level no leading zeros or negative zero, only digits before `:`, increasing keys. -/
def Syn.Canonical : Syn → Prop
  | .int text => Decimal.canonInt text
  | .str tok => Decimal.canonNat tok.len
  | .list items => CanonicalItems items
  | .dict entries => (entries.map (·.1.body)).Pairwise (· < ·) ∧ CanonicalEntries entries

def CanonicalItems : List Syn → Prop
  | [] => True
  | t :: ts => t.Canonical ∧ CanonicalItems ts

def CanonicalEntries : List (StrTok × Syn) → Prop
  | [] => True
  | (k, t) :: es => Decimal.canonNat k.len ∧ t.Canonical ∧ CanonicalEntries es

end

def CanonicalBencoding (b : Bytes) : Prop := ∃ t : Syn, t.Accepted ∧ t.Canonical ∧ t.spell = b

/-! ## First bytes -/

private theorem ne_endTag_of_isNumeralByte {b : UInt8} (h : isNumeralByte b) : b ≠ endTag := by
  rintro rfl
  exact absurd h (by decide)

theorem StrTok.spell_cons {k : StrTok} (hk : k.Accepted) :
    ∃ b t, k.spell = b :: t ∧ b ≠ endTag := by
  obtain ⟨-, i, n, hfc, -⟩ := hk
  obtain ⟨b, t, hlen, hb⟩ := fromChars_head hfc
  exact ⟨b, t ++ colon :: k.body, by simp [StrTok.spell, hlen], ne_endTag_of_isNumeralByte hb⟩

theorem Syn.spell_cons {t : Syn} (ht : t.Accepted) : ∃ b r, t.spell = b :: r ∧ b ≠ endTag := by
  cases t with
  | int | list | dict => exact ⟨_, _, rfl, by decide⟩
  | str tok => exact tok.spell_cons ht.1

end P2P.Bencode
