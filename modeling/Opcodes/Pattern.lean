import Opcodes.Byte
import Opcodes.Family
import Opcodes.Mode

/-!
# Patterns over opcode bytes

A pattern accepts either one exact byte or a range of families in which some
bits are required and some are forbidden. Required and forbidden bits are
tested against the whole byte; the text of a pattern shows the modes among
them.
-/

namespace Opcodes

/-- One byte, or the families from `first` to `last` with all of `require` and none of `forbid`. -/
inductive Pattern where
  | byte (value : UInt8)
  | families (first last : Family) (require forbid : UInt8)
deriving DecidableEq, Repr

namespace Pattern

def accepts : Pattern → UInt8 → Bool
  | byte value, candidate => value == candidate
  | families first last require forbid, candidate =>
      let index := (Family.ofByte candidate).index
      first.index ≤ index && index ≤ last.index &&
        candidate &&& require == require && candidate &&& forbid == 0

/-- The bytes that belong to the pattern, lowest first. -/
def bytes (pattern : Pattern) : List UInt8 :=
  Byte.all.filter pattern.accepts

@[simp]
theorem mem_bytes {pattern : Pattern} {candidate : UInt8} :
    candidate ∈ pattern.bytes ↔ pattern.accepts candidate = true := by
  simp [bytes]

/-- A clause about modes, empty when no bit is named. -/
def modeClause (word : String) (bits : UInt8) : String :=
  if bits = 0 then "" else word ++ (Modes.ofByte bits).describe

/-- The families of a range, named by the first one alone if there is just one. -/
def familyClause (first last : Family) : String :=
  if first = last then
    "family " ++ Text.Hex.marked first.toByte
  else
    "families " ++ Text.Hex.marked first.toByte ++ "..=" ++ Text.Hex.marked last.toByte

def describe : Pattern → String
  | byte value => "byte " ++ Text.Hex.marked value
  | families first last require forbid =>
      familyClause first last ++ modeClause " with " require ++ modeClause " without " forbid

end Pattern

end Opcodes
