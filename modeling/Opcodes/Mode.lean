import Opcodes.Flag

/-!
# Mode flags of an opcode

The three high bits of an opcode byte qualify the operation that the low five
bits select. A mnemonic spells the set modes as a suffix, keep first, then
return stack, then wide.
-/

namespace Opcodes

namespace Mode

/-- The operation works on wide values. -/
def wide : Flag :=
  ⟨"wide", 5⟩

/-- The operation works on the return stack. -/
def returnStack : Flag :=
  ⟨"return", 6⟩

/-- The operation leaves its operands in place. -/
def keep : Flag :=
  ⟨"keep", 7⟩

def flags : List Flag :=
  [wide, returnStack, keep]

/-- Each mode with its letter, in the order of the suffix. -/
def letters : List (Flag × Char) :=
  [(keep, 'k'), (returnStack, 'r'), (wide, '2')]

end Mode

abbrev Modes :=
  FlagSet Mode.flags

namespace Modes

def ofByte (byte : UInt8) : Modes :=
  FlagSet.ofBits Mode.flags byte

def suffix (modes : Modes) : String :=
  String.ofList ((Mode.letters.filter fun entry => modes.has entry.1).map fun entry => entry.2)

/-- One character per mode: its letter when set, a dash when not. -/
def describe (modes : Modes) : String :=
  String.ofList (Mode.letters.map fun entry => if modes.has entry.1 then entry.2 else '-')

end Modes

end Opcodes
