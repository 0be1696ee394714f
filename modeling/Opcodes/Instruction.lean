import Opcodes.Mode
import Opcodes.Text.Field

/-!
# Instructions

What an opcode byte stands for: nothing, a fixed mnemonic, which takes no
suffix, or a base name with modes, whose mnemonic is the base followed by the
letters of the modes.
-/

namespace Opcodes

inductive Instruction where
  | undefined
  | atomic (name : String)
  | composed (base : String) (modes : Modes)
deriving DecidableEq

namespace Instruction

instance : Inhabited Instruction :=
  ⟨undefined⟩

/-- The mnemonic, absent exactly for an undefined instruction. -/
def mnemonic? : Instruction → Option String
  | undefined => none
  | atomic name => some name
  | composed base modes => some (base ++ modes.suffix)

def isDefined : Instruction → Bool
  | undefined => false
  | _ => true

theorem isSome_mnemonic? (instruction : Instruction) :
    instruction.mnemonic?.isSome = instruction.isDefined := by
  cases instruction <;> rfl

def isComposed : Instruction → Bool
  | composed _ _ => true
  | _ => false

/-- The modes that the mnemonic spells. -/
def suffixModes : Instruction → Modes
  | composed _ modes => modes
  | _ => FlagSet.empty Mode.flags

def text (instruction : Instruction) : String :=
  instruction.mnemonic?.getD ""

/-- The text is empty or the mnemonic. -/
theorem text_of_mnemonic? (Good : String → Prop) {instruction : Instruction} (empty : Good "")
    (named : ∀ mnemonic ∈ instruction.mnemonic?, Good mnemonic) : Good instruction.text := by
  unfold text
  cases found : instruction.mnemonic? with
  | none => exact empty
  | some mnemonic => exact named mnemonic found

def format (field : Text.Field) (instruction : Instruction) : String :=
  field.fit instruction.text

/-- The width of a table cell: the longest mnemonic of six letters and a gap. -/
def cellWidth : Nat :=
  8

def cell (instruction : Instruction) : String :=
  instruction.format (.column cellWidth)

theorem toList_cell (instruction : Instruction) :
    instruction.cell.toList =
      instruction.text.toList ++ List.replicate (cellWidth - instruction.text.length) ' ' :=
  Text.Field.toList_fit_column cellWidth instruction.text

def outline : Instruction → String
  | undefined => "Undefined"
  | atomic name => "Atomic(\"" ++ name ++ "\")"
  | composed base modes =>
      "Composed \x7b base: \"" ++ base ++ "\", modes: " ++ modes.describe ++ " \x7d"

end Instruction

end Opcodes
