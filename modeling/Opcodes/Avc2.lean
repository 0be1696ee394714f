import Opcodes.Table

/-!
# The avc2 stack machine

An opcode byte of this machine is laid out as `k r 2 f f f f f`: five bits
select the family, and three flags ask for keeping operands, for the return
stack and for wide values. The rules below are the exceptions to composing a
family's name with its modes.
-/

namespace Opcodes.Avc2

/-- The names of the families, eight to a group. -/
def naming : Naming :=
  #v["", "", "", "POP", "SWP", "ROT", "DUP", "OVR",
    "EQU", "GTH", "JMP", "JNZ", "JSR", "STH", "", "",
    "LDZ", "STZ", "LDR", "STR", "LDA", "STA", "PIC", "PUT",
    "ADC", "SBC", "MUL", "DVM", "AND", "IOR", "XOR", "SFT"]

/-- The family of literals, whose bytes without keep are assigned one by one. -/
def literal : Family :=
  Family.ofByte 0x00

/-- The first of the families that stand for nothing. -/
def firstReserved : Family :=
  Family.ofByte 0x01

def lastReserved : Family :=
  Family.ofByte 0x02

/-- The first of the families that only move stack items. -/
def firstShuffle : Family :=
  Family.ofByte 0x03

def lastShuffle : Family :=
  Family.ofByte 0x07

/-- The exceptions, in the order in which they are tried. -/
def rules : List Rule :=
  [⟨"literal push", .families literal literal Mode.keep.mask 0,
      .compose (some "LIT") Mode.keep.mask⟩,
    ⟨"set carry", .byte 0x20, .atomic "SEC"⟩,
    ⟨"clear carry", .byte 0x40, .atomic "CLC"⟩,
    ⟨"extend", .byte 0x60, .atomic "EXT"⟩,
    ⟨"unassigned zero-family byte", .families literal literal 0 Mode.keep.mask, .undefined⟩,
    ⟨"reserved family", .families firstReserved lastReserved 0 0, .undefined⟩,
    ⟨"return from interrupt", .byte 0x83, .atomic "RTI"⟩,
    -- Keep has no meaning for an operation that only moves stack items.
    ⟨"stack shuffle", .families firstShuffle lastShuffle 0 0,
      .compose none Mode.keep.mask⟩]

def instructionSet : InstructionSet :=
  ⟨naming, rules⟩

def table : Table :=
  instructionSet.table

end Opcodes.Avc2
