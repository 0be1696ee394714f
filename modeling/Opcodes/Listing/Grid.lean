import Opcodes.Listing.Palette
import Opcodes.Table

/-!
# The grid

Sixteen rows of sixteen cells: the high half of a byte selects the row and the
low half the column. Both are labelled with their hexadecimal digit.
-/

namespace Opcodes.Listing.Grid

/-- The numbers of the rows, and of the columns. -/
def places : List Nat :=
  List.range 16

def label (place : Nat) : String :=
  String.singleton (Nat.digitChar place)

def heading (column : Nat) : Span :=
  ⟨(Text.Field.column Instruction.cellWidth).fit (label column), none⟩

def header : List Span :=
  ⟨"  ", none⟩ :: places.map heading ++ [.lineEnd]

/-- The byte in a given row and column. -/
def byteAt (row column : Nat) : UInt8 :=
  UInt8.ofNat (16 * row + column)

def cell (table : Table) (byte : UInt8) : Span :=
  ⟨(table.instruction byte).cell, some ((table.instruction byte).style byte)⟩

def row (table : Table) (place : Nat) : List Span :=
  ⟨label place ++ " ", none⟩ :: places.map (fun column => cell table (byteAt place column)) ++
    [.lineEnd]

def document (table : Table) : Document where
  spans := header ++ places.flatMap (row table)

end Opcodes.Listing.Grid
