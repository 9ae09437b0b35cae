import P2P.Native.Hex

/-!
# Hexadecimal text is read back
-/

namespace P2P

open List

theorem hexPair_hexChar (b : UInt8) :
    hexDigit? (hexChar (b >>> 4)) = some (b >>> 4) ∧
      hexDigit? (hexChar (b &&& 15)) = some (b &&& 15) ∧
      (16 : UInt8) * (b >>> 4) + (b &&& 15) = b := by
  have h : ∀ n : Fin 256,
      hexDigit? (hexChar (UInt8.ofFin n >>> 4)) = some (UInt8.ofFin n >>> 4) ∧
        hexDigit? (hexChar (UInt8.ofFin n &&& 15)) = some (UInt8.ofFin n &&& 15) ∧
        (16 : UInt8) * (UInt8.ofFin n >>> 4) + (UInt8.ofFin n &&& 15) = UInt8.ofFin n := by
    decide +kernel
  exact h b.toFin

@[simp] theorem length_bytesToHex (data : Bytes) : (bytesToHex data).length = 2 * data.length := by
  induction data with
  | nil => rfl
  | cons b data ih =>
    rw [bytesToHex, flatMap_cons, ← bytesToHex, length_append, ih]
    simp only [length_cons, length_nil]
    omega

theorem hexToBytes_bytesToHex (data : Bytes) : hexToBytes (bytesToHex data) = .ok data := by
  have hpairs : hexPairs (bytesToHex data) = .ok data := by
    induction data with
    | nil => rfl
    | cons b data ih =>
      obtain ⟨hhigh, hlow, hbyte⟩ := hexPair_hexChar b
      show hexPairs (hexChar (b >>> 4) :: hexChar (b &&& 15) :: bytesToHex data) = _
      rw [hexPairs, hhigh, hlow, ih]
      show Except.ok (_ :: data) = _
      rw [hbyte]
  rw [hexToBytes, if_neg (by simp), hpairs]

end P2P
