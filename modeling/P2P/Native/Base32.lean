import P2P.ForStd.Bytes

/-!
# Base32 (`LsdDiscovery.hpp`, `MagnetUri.hpp`)

The coders of local discovery shift their bits through an `int`. The decoder of magnet links takes
the characters in groups of eight.
-/

namespace P2P

def base32Alphabet : Bytes := .ascii "ABCDEFGHIJKLMNOPQRSTUVWXYZ234567"

def base32Char (value : Nat) : UInt8 := base32Alphabet.getD value 0

namespace LsdCrypto

def encodeBits (buffer : BitVec 32) : Nat → Bytes × Nat
  | bitsRemaining + 5 =>
    let r := encodeBits buffer bitsRemaining
    (base32Char (buffer.sshiftRight bitsRemaining &&& 0x1F).toNat :: r.1, r.2)
  | bitsRemaining => ([], bitsRemaining)

def encodeLoop (buffer : BitVec 32) (bitsRemaining : Nat) : Bytes → Bytes
  | [] =>
    if bitsRemaining > 0 then [base32Char (buffer <<< (5 - bitsRemaining) &&& 0x1F).toNat] else []
  | b :: input =>
    let buffer := buffer <<< 8 ||| b.toBitVec.setWidth 32
    let r := encodeBits buffer (bitsRemaining + 8)
    r.1 ++ encodeLoop buffer r.2 input

def base32Encode (input : Bytes) : Bytes := encodeLoop 0 0 input

def reverseTable (ch : UInt8) : Option Nat :=
  (base32Alphabet.idxOf? ch).or ((Bytes.ascii "abcdefghijklmnopqrstuvwxyz234567").idxOf? ch)

def decodeLoop (buffer : BitVec 32) (bitsRemaining : Nat) : Bytes → Bytes
  | [] => []
  | ch :: input =>
    if ch = 61 then []
    else match reverseTable ch with
      | none => decodeLoop buffer bitsRemaining input
      | some val =>
        let buffer := buffer <<< 5 ||| BitVec.ofNat 32 val
        if bitsRemaining + 5 ≥ 8 then
          UInt8.ofBitVec ((buffer.sshiftRight (bitsRemaining + 5 - 8) &&& 0xFF).setWidth 8) ::
            decodeLoop buffer (bitsRemaining + 5 - 8) input
        else decodeLoop buffer (bitsRemaining + 5) input

def base32Decode (input : Bytes) : Bytes := decodeLoop 0 0 input

end LsdCrypto

def toLower (c : UInt8) : UInt8 := if 65 ≤ c ∧ c ≤ 90 then c + 32 else c

/-- `char_to_base32`; `none` for -1. -/
def charToBase32 (c : UInt8) : Option Nat :=
  base32Alphabet.findIdx? fun a => a = c ∨ toLower a = toLower c

/-- A group of eight characters; `none` when `decode_base32_info_hash` throws. -/
def decodeBase32Group (chars : Bytes) : Option Bytes := do
  let vals ← chars.mapM charToBase32
  let buffer := vals.foldl (fun (buffer : BitVec 64) val => buffer <<< 5 ||| BitVec.ofNat 64 val) 0
  return (List.range 5).map fun j =>
    UInt8.ofBitVec ((buffer >>> (32 - j * 8) &&& 0xFF).setWidth 8)

/-- `decode_base32_info_hash`; `none` when it throws. -/
def decodeBase32InfoHash (b32 : Bytes) : Option Bytes :=
  if b32.length ≠ 32 then none
  else (List.range 4).foldlM (fun hash group => do
    return hash ++ (← decodeBase32Group ((b32.drop (group * 8)).take 8))) []

end P2P
