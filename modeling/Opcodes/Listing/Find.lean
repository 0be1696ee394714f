import Opcodes.Document
import Opcodes.Table

/-!
# The bytes of mnemonics

One line per known mnemonic holds it and its byte, in the order asked for.
Unknown ones get no line but are counted, and make the whole fail in the end.
-/

namespace Opcodes.Listing.Find

/-- The line of a mnemonic, if a byte owns it. -/
def line? (table : Table) (mnemonic : String) : Option Span :=
  (table.find? mnemonic).map fun byte => ⟨mnemonic ++ " " ++ Text.Hex.marked byte ++ "\n", none⟩

/-- The mnemonics that no byte owns, in the order asked for. -/
def unknown (table : Table) (mnemonics : List String) : List String :=
  mnemonics.filter fun mnemonic => (table.find? mnemonic).isNone

def complaint? (table : Table) (mnemonics : List String) : Option WriteError :=
  if (unknown table mnemonics).isEmpty then
    none
  else
    some (.unknownMnemonics (unknown table mnemonics).length mnemonics.length)

/-- The bytes of the mnemonics asked for. -/
def document (table : Table) (mnemonics : List String) : Document where
  spans := mnemonics.filterMap (line? table)
  complaint := complaint? table mnemonics

end Opcodes.Listing.Find
