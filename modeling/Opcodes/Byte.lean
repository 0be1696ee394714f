/-!
# The bytes in ascending order

Everything that runs over a whole opcode space runs over this list.
-/

namespace Opcodes.Byte

/-- All 256 bytes, lowest first. -/
def all : List UInt8 :=
  (List.range 256).map UInt8.ofNat

@[simp]
theorem length_all : all.length = 256 := by
  simp [all]

@[simp]
theorem mem_all (byte : UInt8) : byte ∈ all := by
  simp only [all, List.mem_map, List.mem_range]
  exact ⟨byte.toNat, byte.toNat_lt, UInt8.ofNat_toNat⟩

end Opcodes.Byte
