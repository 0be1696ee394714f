import Opcodes.Byte
import Opcodes.InstructionSet

/-!
# Opcode tables

A table holds the meaning of all 256 bytes and knows which byte owns which
mnemonic. It is filled in ascending order, and the first byte that produces a
mnemonic owns it. A byte that composes a mnemonic with an owner becomes
undefined and is recorded as an alias of the owner; a fixed mnemonic stays,
but takes nothing from an owner before it.
-/

namespace Opcodes

/-- The final resolution of a byte, and for an alias the owner of the mnemonic that the byte would
have composed. -/
structure Entry where
  resolution : Resolution
  aliasOf : Option UInt8
deriving DecidableEq

/-- Mnemonics with the bytes that own them, the latest first. -/
abbrev Owners :=
  List (String × UInt8)

namespace Entry

def plain (resolution : Resolution) : Entry :=
  ⟨resolution, none⟩

/-- The entry of a byte whose mnemonic belongs to another byte. -/
def aliased (resolution : Resolution) (owner : UInt8) : Entry :=
  ⟨{ resolution with instruction := .undefined }, some owner⟩

/-- The entry of the next byte, and the owners once it has been entered. -/
def place (owners : Owners) (byte : UInt8) (resolution : Resolution) : Entry × Owners :=
  match resolution.instruction.mnemonic? with
  | none => (plain resolution, owners)
  | some mnemonic =>
      match owners.lookup mnemonic with
      | none => (plain resolution, (mnemonic, byte) :: owners)
      | some owner =>
          if resolution.instruction.isComposed then
            (aliased resolution owner, owners)
          else
            (plain resolution, owners)

/-- The entries of the listed bytes in turn, and the owners after the last of them. -/
def scan (resolve : UInt8 → Resolution) : Owners → List UInt8 → List Entry × Owners
  | owners, [] => ([], owners)
  | owners, byte :: rest =>
      let placed := place owners byte (resolve byte)
      let later := scan resolve placed.2 rest
      (placed.1 :: later.1, later.2)

@[simp]
theorem length_scan (resolve : UInt8 → Resolution) (owners : Owners) (bytes : List UInt8) :
    (scan resolve owners bytes).1.length = bytes.length := by
  induction bytes generalizing owners with
  | nil => rfl
  | cons byte rest ih => simp [scan, ih]

end Entry

/-- The meaning of every byte and the owner of every mnemonic. -/
structure Table where
  entries : Vector Entry 256
  owners : Owners

namespace Table

/-- The table of a decoder that looks at each byte by itself. -/
def build (resolve : UInt8 → Resolution) : Table :=
  let scanned := Entry.scan resolve [] Byte.all
  ⟨⟨scanned.1.toArray, by simp [scanned]⟩, scanned.2⟩

def entry (table : Table) (byte : UInt8) : Entry :=
  table.entries[byte.toFin]

/-- A byte with its final instruction and the rule that governed it. -/
def resolution (table : Table) (byte : UInt8) : Resolution :=
  (table.entry byte).resolution

def instruction (table : Table) (byte : UInt8) : Instruction :=
  (table.resolution byte).instruction

/-- The byte whose mnemonic this byte would have repeated. -/
def aliasOf? (table : Table) (byte : UInt8) : Option UInt8 :=
  (table.entry byte).aliasOf

def find? (table : Table) (mnemonic : String) : Option UInt8 :=
  table.owners.lookup mnemonic

/-- All bytes with their final instructions, in the order of the entries. -/
def toList (table : Table) : List (UInt8 × Instruction) :=
  table.entries.toList.map fun entry => (entry.resolution.byte, entry.resolution.instruction)

/-- The bytes that have a mnemonic, with it, in the order of the entries. -/
def defined (table : Table) : List (UInt8 × String) :=
  table.toList.filterMap fun (byte, instruction) =>
    instruction.mnemonic?.map fun mnemonic => (byte, mnemonic)

def size (table : Table) : Nat :=
  table.entries.size

end Table

def InstructionSet.table (set : InstructionSet) : Table :=
  Table.build set.resolve

end Opcodes
