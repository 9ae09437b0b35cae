import P2P.ForStd.Bytes
import P2P.ForStd.Decimal
import P2P.ForStd.OrdMap

/-!
# Bencode (`Bencode.hpp`, `Bencode.cpp`)

The functions of the decoder return the rest of the view. Exceptions are `Except` errors with the
source's texts.
-/

namespace P2P

open Decimal

inductive Value where
  | int (i : Int64)
  | str (s : Bytes)
  | list (l : List Value)
  | dict (d : List (Bytes × Value))

abbrev Dict := List (Bytes × Value)

namespace Value

mutual

/-- What the C++ types guarantee: strings are shorter than `PTRDIFF_MAX`, and the keys of a
    `std::map` increase. -/
def WF : Value → Prop
  | .int _ => True
  | .str s => s.length < 2 ^ 63
  | .list l => WFItems l
  | .dict d => Assoc.Sorted d ∧ WFEntries d

def WFItems : List Value → Prop
  | [] => True
  | v :: l => v.WF ∧ WFItems l

def WFEntries : List (Bytes × Value) → Prop
  | [] => True
  | (k, v) :: d => k.length < 2 ^ 63 ∧ v.WF ∧ WFEntries d

end

theorem wfItems_of_forall {l : List Value} (h : ∀ v ∈ l, v.WF) : WFItems l := by
  induction l with
  | nil => trivial
  | cons v l ih =>
    exact ⟨h v (List.mem_cons_self ..), ih fun w hw => h w (List.mem_cons_of_mem _ hw)⟩

theorem wfEntries_of_forall {d : List (Bytes × Value)}
    (h : ∀ p ∈ d, p.1.length < 2 ^ 63 ∧ p.2.WF) : WFEntries d := by
  induction d with
  | nil => trivial
  | cons p d ih =>
    exact ⟨(h p (List.mem_cons_self ..)).1, (h p (List.mem_cons_self ..)).2,
      ih fun q hq => h q (List.mem_cons_of_mem _ hq)⟩

theorem forall_of_wfEntries {d : List (Bytes × Value)} (h : WFEntries d) :
    ∀ p ∈ d, p.1.length < 2 ^ 63 ∧ p.2.WF := by
  induction d with
  | nil => exact nofun
  | cons q d ih =>
    intro p hp
    cases List.mem_cons.mp hp with
    | inl heq => exact heq ▸ ⟨h.1, h.2.1⟩
    | inr hmem => exact ih h.2.2 p hmem

end Value

def dictOf (entries : Dict) : Value :=
  .dict (entries.foldl (fun d e => Assoc.insert d e.1 e.2) [])

theorem dictOf_of_sorted {entries : Dict} (h : Assoc.Sorted entries) :
    dictOf entries = .dict entries := by
  have hentries := Assoc.foldl_insert_of_sorted id [] (l := entries) (by simpa using h)
  simpa [dictOf] using hentries

theorem Value.WF.foldl_insert {d entries : Dict} (hd : (Value.dict d).WF)
    (h : ∀ p ∈ entries, p.1.length < 2 ^ 63 ∧ p.2.WF) :
    (Value.dict (entries.foldl (fun d e => Assoc.insert d e.1 e.2) d)).WF := by
  induction entries generalizing d with
  | nil => exact hd
  | cons e entries ih =>
    refine ih ⟨Assoc.sorted_insert _ _ hd.1, Value.wfEntries_of_forall ?_⟩ fun p hp =>
      h p (List.mem_cons_of_mem _ hp)
    intro p hp
    cases Assoc.mem_insert hp with
    | inl hnew => exact hnew ▸ h e List.mem_cons_self
    | inr hold => exact Value.forall_of_wfEntries hd.2 p hold

theorem wf_dictOf {entries : Dict} (h : ∀ p ∈ entries, p.1.length < 2 ^ 63 ∧ p.2.WF) :
    (dictOf entries).WF :=
  Value.WF.foldl_insert ⟨List.Pairwise.nil, trivial⟩ h

abbrev WFValue := { v : Value // v.WF }

namespace Bencode

abbrev colon : UInt8 := 58

abbrev intTag : UInt8 := 105

abbrev listTag : UInt8 := 108

abbrev dictTag : UInt8 := 100

abbrev endTag : UInt8 := 101

def encodeString (s : Bytes) : Bytes := printNat s.length ++ colon :: s

mutual

def encode : Value → Bytes
  | .int i => intTag :: (printInt i.toInt ++ [endTag])
  | .str s => encodeString s
  | .list l => listTag :: (encodeItems l ++ [endTag])
  | .dict d => dictTag :: (encodeEntries d ++ [endTag])

def encodeItems : List Value → Bytes
  | [] => []
  | v :: l => encode v ++ encodeItems l

def encodeEntries : List (Bytes × Value) → Bytes
  | [] => []
  | (k, v) :: d => encodeString k ++ encode v ++ encodeEntries d

end

inductive BencodeError where
  | missingColon
  | invalidLength
  | negativeLength
  | lengthExceedsBuffer
  | missingI
  | missingIntegerE
  | integerValue
  | missingL
  | missingListE
  | missingD
  | missingDictE
  | unexpectedEnd
  | unknownType
  | trailingData
  | depth
  deriving DecidableEq, Repr

def BencodeError.what : BencodeError → String
  | missingColon => "Bencode: Invalid string format, missing colon."
  | invalidLength => "Bencode: Invalid string length."
  | negativeLength => "Bencode: String length cannot be negative."
  | lengthExceedsBuffer => "Bencode: String length exceeds buffer size."
  | missingI => "Bencode: Invalid integer format, missing 'i'."
  | missingIntegerE => "Bencode: Invalid integer format, missing 'e'."
  | integerValue => "Bencode: Failed to parse integer value."
  | missingL => "Bencode: Invalid list format, missing 'l'."
  | missingListE => "Bencode: Invalid list format, missing 'e'."
  | missingD => "Bencode: Invalid dictionary format, missing 'd'."
  | missingDictE => "Bencode: Invalid dictionary format, missing 'e'."
  | unexpectedEnd => "Bencode: Unexpected end of data."
  | unknownType => "Bencode: Unknown type specifier."
  | trailingData => "Bencode: Trailing data left after decoding."
  | depth => "unreachable"

inductive Errc where
  | invalidArgument
  | resultOutOfRange
  deriving DecidableEq, Repr

def signedVal (neg : Bool) (ds : Bytes) : Int :=
  if neg then -(digitsVal ds : Int) else digitsVal ds

/-- The digits that `std::from_chars` reads after the sign: the longest run of them. -/
def fromCharsDigits (neg : Bool) (s : Bytes) : Except Errc (Int64 × Nat) :=
  let ds := s.takeWhile isDigit
  if ds = [] then .error .invalidArgument
  else if signedVal neg ds < -2 ^ 63 ∨ 2 ^ 63 ≤ signedVal neg ds then .error .resultOutOfRange
  else .ok (Int64.ofInt (signedVal neg ds), ds.length)

def fromChars (s : Bytes) : Except Errc (Int64 × Nat) :=
  if s.head? = some 45 then (fromCharsDigits true s.tail).map fun (i, n) => (i, n + 1)
  else fromCharsDigits false s

/-- `decode_string`, which does not check that `from_chars` stopped at the colon. -/
def decodeString (data : Bytes) : Except BencodeError (Bytes × Bytes) :=
  match data.dropWhile (· != colon) with
  | [] => .error .missingColon
  | _ :: body =>
    match fromChars (data.takeWhile (· != colon)) with
    | .error _ => .error .invalidLength
    | .ok (len, _) =>
      if len.toInt < 0 then .error .negativeLength
      else if body.length < len.toInt.toNat then .error .lengthExceedsBuffer
      else .ok (body.take len.toInt.toNat, body.drop len.toInt.toNat)

def decodeInteger (data : Bytes) : Except BencodeError (Int64 × Bytes) :=
  match data with
  | [] => .error .missingI
  | b :: data =>
    if b ≠ intTag then .error .missingI
    else
      match data.dropWhile (· != endTag) with
      | [] => .error .missingIntegerE
      | _ :: rest =>
        let text := data.takeWhile (· != endTag)
        match fromChars text with
        | .error _ => .error .integerValue
        | .ok (i, n) => if n ≠ text.length then .error .integerValue else .ok (i, rest)

def decodeItems (item : Bytes → Except BencodeError (Value × Bytes)) :
    Nat → Bytes → List Value → Except BencodeError (List Value × Bytes)
  | _, [], _ => .error .missingListE
  | n, b :: data, result =>
    if b = endTag then .ok (result, data)
    else
      match n with
      | 0 => .error .depth
      | n + 1 =>
        match item (b :: data) with
        | .error e => .error e
        | .ok (v, rest) => decodeItems item n rest (result ++ [v])

/-- The loop of `decode_dict`. `emplace` keeps the first value of a repeated key. -/
def decodeEntries (item : Bytes → Except BencodeError (Value × Bytes)) :
    Nat → Bytes → Dict → Except BencodeError (Dict × Bytes)
  | _, [], _ => .error .missingDictE
  | n, b :: data, result =>
    if b = endTag then .ok (result, data)
    else
      match n with
      | 0 => .error .depth
      | n + 1 =>
        match decodeString (b :: data) with
        | .error e => .error e
        | .ok (key, rest) =>
          match item rest with
          | .error e => .error e
          | .ok (v, rest') => decodeEntries item n rest' (Assoc.emplace result key v)

def decodeList (item : Bytes → Except BencodeError (Value × Bytes)) (data : Bytes) :
    Except BencodeError (List Value × Bytes) :=
  match data with
  | [] => .error .missingL
  | b :: data => if b ≠ listTag then .error .missingL else decodeItems item data.length data []

def decodeDict (item : Bytes → Except BencodeError (Value × Bytes)) (data : Bytes) :
    Except BencodeError (Dict × Bytes) :=
  match data with
  | [] => .error .missingD
  | b :: data => if b ≠ dictTag then .error .missingD else decodeEntries item data.length data []

def decodeValue : Nat → Bytes → Except BencodeError (Value × Bytes)
  | _, [] => .error .unexpectedEnd
  | 0, _ :: _ => .error .depth
  | depth + 1, b :: data =>
    if isDigit b then
      (decodeString (b :: data)).map fun (s, rest) => (.str s, rest)
    else if b = intTag then
      (decodeInteger (b :: data)).map fun (i, rest) => (.int i, rest)
    else if b = listTag then
      (decodeList (decodeValue depth) (b :: data)).map fun (l, rest) => (.list l, rest)
    else if b = dictTag then
      (decodeDict (decodeValue depth) (b :: data)).map fun (d, rest) => (.dict d, rest)
    else .error .unknownType

def decodePrefix (data : Bytes) : Except BencodeError (Value × Nat) :=
  (decodeValue data.length data).map fun (v, rest) => (v, data.length - rest.length)

def decode (data : Bytes) : Except BencodeError Value :=
  match decodePrefix data with
  | .error e => .error e
  | .ok (v, consumed) => if consumed ≠ data.length then .error .trailingData else .ok v

end Bencode

end P2P
