import P2P.Native.TrackerClient

/-!
# Hexadecimal text (`Utils.hpp`)

`bytes_to_hex` writes two lower case digits for a byte, and `hex_to_bytes` reads digits of both
cases.
-/

namespace P2P

def bytesToHex (data : Bytes) : Bytes :=
  data.flatMap fun b : UInt8 => [hexChar (b >>> 4), hexChar (b &&& 15)]

inductive HexError where
  | oddLength
  | invalidSequence
  deriving DecidableEq, Repr

/-- The loop of `hex_to_bytes`; the number of characters is even. -/
def hexPairs : Bytes → Except HexError Bytes
  | a :: b :: rest =>
    match hexDigit? a, hexDigit? b with
    | some high, some low => (hexPairs rest).map ((16 * high + low) :: ·)
    | _, _ => .error .invalidSequence
  | _ => .ok []

def hexToBytes (hex : Bytes) : Except HexError Bytes :=
  if hex.length % 2 ≠ 0 then .error .oddLength else hexPairs hex

end P2P
