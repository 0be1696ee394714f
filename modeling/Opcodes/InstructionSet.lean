import Opcodes.Instruction
import Opcodes.Rule

/-!
# Instruction sets

An instruction set names the families and lists decoding rules in order. The
first rule whose pattern accepts a byte governs it; a byte that no rule governs
composes its family's name with all of its modes.
-/

namespace Opcodes

/-- What decoding makes of one byte, and the rule that governed it. -/
structure Resolution where
  byte : UInt8
  instruction : Instruction
  rule : Option Rule
deriving DecidableEq

namespace Resolution

def family (resolution : Resolution) : Family :=
  Family.ofByte resolution.byte

/-- The modes that the byte carries, before any is absorbed. -/
def rawModes (resolution : Resolution) : Modes :=
  Modes.ofByte resolution.byte

end Resolution

/-- Names for the families and rules in the order in which they are tried. -/
structure InstructionSet where
  naming : Naming
  rules : List Rule

namespace InstructionSet

def governing? (set : InstructionSet) (byte : UInt8) : Option Rule :=
  set.rules.find? fun rule => rule.pattern.accepts byte

/-- The place of the governing rule in the list. -/
def governingIndex? (set : InstructionSet) (byte : UInt8) : Option Nat :=
  set.rules.findIdx? fun rule => rule.pattern.accepts byte

/-- The bytes governed by the rule in a given place, lowest first. -/
def governedBy (set : InstructionSet) (place : Nat) : List UInt8 :=
  Byte.all.filter fun byte => set.governingIndex? byte == some place

/-- A base with modes, where there is a base. -/
def compose : Option String → Modes → Instruction
  | none, _ => .undefined
  | some base, modes => .composed base modes

/-- The instruction that a rule, or its absence, makes of a byte. -/
def instruction (set : InstructionSet) (byte : UInt8) : Option Rule → Instruction
  | none => compose (set.naming.name? (Family.ofByte byte)) (Modes.ofByte byte)
  | some rule =>
      match rule.outcome with
      | .undefined => .undefined
      | .atomic name => .atomic name
      | .compose base absorb =>
          compose (base <|> set.naming.name? (Family.ofByte byte))
            ((Modes.ofByte byte).without absorb)

/-- Applies the rules to one byte by itself. -/
def resolve (set : InstructionSet) (byte : UInt8) : Resolution where
  byte := byte
  instruction := set.instruction byte (set.governing? byte)
  rule := set.governing? byte

end InstructionSet

end Opcodes
