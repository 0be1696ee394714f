import Opcodes.Document
import Opcodes.Table

/-!
# The account of one byte

Four lines say what a byte stands for, which family and modes it carries, and
which rule governed it. A fifth names the owner of its mnemonic if it is an
alias.
-/

namespace Opcodes.Listing.Lookup

def line (text : String) : Span :=
  ⟨text ++ "\n", none⟩

def title (table : Table) (byte : UInt8) : String :=
  Text.Hex.marked byte ++ " " ++ (table.instruction byte).mnemonic?.getD "undefined"

def familyLine (naming : Naming) (family : Family) : String :=
  "  family  " ++ family.describe naming ++ ", " ++ family.group.label

/-- The governing rule; a byte without one was decoded in the general way. -/
def ruleLine (rule : Option Rule) : String :=
  "  rule    " ++ (rule.map Rule.describe).getD "general"

/-- The owner of the mnemonic that the byte would have composed. -/
def aliasLine (table : Table) (owner : UInt8) : String :=
  "  alias   " ++ Text.Hex.marked owner ++ " (" ++ (table.instruction owner).text ++ ")"

def lines (naming : Naming) (table : Table) (byte : UInt8) : List String :=
  let resolution := table.resolution byte
  [title table byte,
    familyLine naming resolution.family,
    "  modes   " ++ resolution.rawModes.describe,
    ruleLine resolution.rule] ++
    (table.aliasOf? byte).toList.map (aliasLine table)

def document (naming : Naming) (table : Table) (byte : UInt8) : Document where
  spans := (lines naming table byte).map line

end Opcodes.Listing.Lookup
