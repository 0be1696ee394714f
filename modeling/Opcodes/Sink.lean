/-!
# Sinks

A sink keeps the bytes that it is given as long as it has room.
-/

namespace Opcodes

/-- A receiver of bytes, which may have room for only so many more. -/
structure Sink where
  held : List UInt8
  room : Option Nat
deriving DecidableEq, Repr

namespace Sink

def empty (room : Option Nat) : Sink :=
  ⟨[], room⟩

/-- Keeps the bytes for which there is room, and tells whether that was all of them. -/
def write (sink : Sink) (bytes : List UInt8) : Sink × Bool :=
  match sink.room with
  | none => (⟨sink.held ++ bytes, none⟩, true)
  | some room =>
      (⟨sink.held ++ bytes.take room, some (room - bytes.length)⟩, bytes.length ≤ room)

end Sink

end Opcodes
