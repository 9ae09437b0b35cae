import Mathlib.Data.List.Lex

/-!
# Byte strings

Byte strings as lists of `UInt8`, compared as `std::string` compares them
(lexicographically, bytes unsigned).
-/

/-- A byte string: `std::string`, `std::vector<std::byte>` or a span of one. -/
abbrev Bytes := List UInt8

instance UInt8.linearOrder : LinearOrder UInt8 where
  le_refl := UInt8.le_refl
  le_trans _ _ _ := UInt8.le_trans
  le_antisymm _ _ := UInt8.le_antisymm
  le_total := UInt8.le_total
  lt_iff_le_not_ge a b := by
    rw [UInt8.not_le]
    exact ⟨fun h => ⟨UInt8.le_of_lt h, h⟩, And.right⟩
  toDecidableLE := inferInstance
  toDecidableLT := inferInstance
  toDecidableEq := inferInstance

namespace Bytes

/-- The bytes of an ASCII text. -/
def ascii (s : String) : Bytes := s.toList.map Char.toUInt8

end Bytes
