/-!
# Hexadecimal text of a byte

A byte is written as two lower-case digits, the high half first. The marked
form puts `0x` in front of them.
-/

namespace Opcodes.Text.Hex

def pair (byte : UInt8) : String :=
  String.ofList [Nat.digitChar (byte.toNat / 16), Nat.digitChar (byte.toNat % 16)]

@[simp]
theorem toList_pair (byte : UInt8) :
    (pair byte).toList =
      [Nat.digitChar (byte.toNat / 16), Nat.digitChar (byte.toNat % 16)] := by
  simp [pair]

/-- The two digits of a byte behind the mark `0x`. -/
def marked (byte : UInt8) : String :=
  "0x" ++ pair byte

@[simp]
theorem toList_marked (byte : UInt8) :
    (marked byte).toList = '0' :: 'x' :: (pair byte).toList := by
  simp [marked]

end Opcodes.Text.Hex
