import Opcodes.Text.Hex

/-!
# Operation families

The low five bits of an opcode byte select one of 32 families. A naming gives
each family a name, where the empty text stands for a slot without one.
Families come in four groups of eight.
-/

namespace Opcodes

/-- The base operation that an opcode byte selects. -/
structure Family where
  index : Fin 32
deriving DecidableEq, Repr

/-- Bands of eight neighbouring families. -/
inductive Group where
  | stack
  | logic
  | memory
  | maths
deriving DecidableEq, Repr

def Group.label : Group → String
  | stack => "stack/misc"
  | logic => "logic/jumps"
  | memory => "memory"
  | maths => "maths"

/-- A name for each family; the empty text leaves a family nameless. -/
abbrev Naming :=
  Vector String 32

def Naming.name? (naming : Naming) (family : Family) : Option String :=
  if naming[family.index].isEmpty then none else some naming[family.index]

namespace Family

/-- The family in the low five bits of a byte. -/
def ofByte (byte : UInt8) : Family :=
  ⟨Fin.ofNat 32 byte.toNat⟩

@[simp]
theorem val_index_ofByte (byte : UInt8) : (ofByte byte).index.val = byte.toNat % 32 :=
  rfl

def toByte (family : Family) : UInt8 :=
  UInt8.ofNat family.index

@[simp]
theorem ofByte_toByte (family : Family) : ofByte family.toByte = family := by
  have small : family.index.val < 256 := Nat.lt_trans family.index.isLt (by decide)
  have value : family.toByte.toNat = family.index := UInt8.toNat_ofNat_of_lt' small
  rw [ofByte, value, Fin.ofNat_val_eq_self]

theorem toByte_injective {first second : Family} (same : first.toByte = second.toByte) :
    first = second := by
  rw [← ofByte_toByte first, same, ofByte_toByte]

/-- The band that holds the family. -/
def group (family : Family) : Group :=
  match family.index.val / 8 with
  | 0 => .stack
  | 1 => .logic
  | 2 => .memory
  | _ => .maths

/-- The index in hexadecimal, followed by the name where there is one. -/
def describe (naming : Naming) (family : Family) : String :=
  match naming.name? family with
  | none => Text.Hex.marked family.toByte
  | some name => Text.Hex.marked family.toByte ++ " (" ++ name ++ ")"

def outline (family : Family) : String :=
  "Family(" ++ toString family.index ++ ")"

end Family

end Opcodes
