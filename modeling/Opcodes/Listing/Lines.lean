import Opcodes.Listing.Palette
import Opcodes.Table

/-!
# One line per byte

Each line holds the two digits of a byte and, behind a blank, its mnemonic.
Undefined bytes are listed on request only, by their digits alone.
-/

namespace Opcodes.Listing.Lines

/-- The line of one byte, empty when it is not listed. -/
def line (all : Bool) (byte : UInt8) (instruction : Instruction) : List Span :=
  if instruction.isDefined then
    [⟨Text.Hex.pair byte ++ " ", none⟩,
      ⟨instruction.text, some (instruction.style byte)⟩, .lineEnd]
  else if all then
    [⟨Text.Hex.pair byte, none⟩, .lineEnd]
  else
    []

def document (all : Bool) (table : Table) : Document where
  spans := table.toList.flatMap fun (byte, instruction) => line all byte instruction

end Opcodes.Listing.Lines
