import Opcodes.Document
import Opcodes.Family
import Opcodes.Instruction

/-!
# Colours of a listing

A fixed mnemonic stands out in bold red, a composed one takes the colour of its
byte's group, and an undefined instruction takes no colour.
-/

namespace Opcodes

def Group.color : Group → Color
  | stack => .cyan
  | logic => .yellow
  | memory => .green
  | maths => .magenta

def Instruction.style (byte : UInt8) : Instruction → Style
  | undefined => ⟨false, none⟩
  | atomic _ => ⟨true, some .red⟩
  | composed _ _ => ⟨false, some (Family.ofByte byte).group.color⟩

end Opcodes
