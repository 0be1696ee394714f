/-!
# Flags stored in a byte

A declaration is a list of flags, each a name and a bit position. A flag set
over a declaration is a byte that has no bit outside the declared ones; the
type carries that fact, so every operation keeps it.
-/

namespace Opcodes

structure Flag where
  name : String
  position : Fin 8
deriving DecidableEq, Repr

namespace Flag

/-- The byte in which this flag's bit alone is set. -/
def mask (flag : Flag) : UInt8 :=
  1 <<< UInt8.ofNat flag.position

/-- The byte in which the bits of all listed flags are set. -/
def union (flags : List Flag) : UInt8 :=
  flags.foldr (fun flag bits => flag.mask ||| bits) 0

@[simp]
theorem union_nil : union [] = 0 :=
  rfl

@[simp]
theorem union_cons (flag : Flag) (rest : List Flag) :
    union (flag :: rest) = flag.mask ||| union rest :=
  rfl

end Flag

/-- A byte whose set bits all belong to declared flags. -/
structure FlagSet (flags : List Flag) where
  bits : UInt8
  within : bits &&& Flag.union flags = bits
deriving DecidableEq

namespace FlagSet

variable {flags : List Flag}

@[ext]
theorem ext {first second : FlagSet flags} (same : first.bits = second.bits) :
    first = second := by
  cases first
  cases second
  cases same
  rfl

/-- The declared bits of a byte; the others are dropped. -/
def ofBits (flags : List Flag) (byte : UInt8) : FlagSet flags where
  bits := byte &&& Flag.union flags
  within := by rw [UInt8.and_assoc, UInt8.and_self]

@[simp]
theorem bits_ofBits (byte : UInt8) :
    (ofBits flags byte).bits = byte &&& Flag.union flags :=
  rfl

@[simp]
theorem ofBits_bits (set : FlagSet flags) : ofBits flags set.bits = set :=
  ext set.within

def empty (flags : List Flag) : FlagSet flags where
  bits := 0
  within := UInt8.zero_and

instance : Inhabited (FlagSet flags) :=
  ⟨empty flags⟩

@[simp]
theorem bits_empty : (empty flags).bits = 0 :=
  rfl

/-- The set after every bit of a mask has been cleared. -/
def without (set : FlagSet flags) (mask : UInt8) : FlagSet flags where
  bits := set.bits &&& ~~~mask
  within := by
    rw [UInt8.and_assoc, UInt8.and_comm (~~~mask), ← UInt8.and_assoc, set.within]

@[simp]
theorem bits_without (set : FlagSet flags) (mask : UInt8) :
    (set.without mask).bits = set.bits &&& ~~~mask :=
  rfl

def has (set : FlagSet flags) (flag : Flag) : Bool :=
  flag.mask &&& set.bits != 0

def isEmpty (set : FlagSet flags) : Bool :=
  set.bits == 0

/-- The declared flags whose bits are set, in the order of declaration. -/
def toList (set : FlagSet flags) : List Flag :=
  flags.filter set.has

end FlagSet

end Opcodes
