import Opcodes.Pattern

/-!
# Decoding rules

A rule says what becomes of the bytes of a pattern. Its text, which a reader of
a look-up sees, is the label followed by the pattern.
-/

namespace Opcodes

/-- What becomes of a byte. A composed mnemonic takes the base, or else the family's name, with the
modes of the byte less the absorbed ones. -/
inductive Outcome where
  | undefined
  | atomic (name : String)
  | compose (base : Option String) (absorb : UInt8)
deriving DecidableEq, Repr

/-- A labelled exception to the general way of decoding. -/
structure Rule where
  label : String
  pattern : Pattern
  outcome : Outcome
deriving DecidableEq, Repr

def Rule.describe (rule : Rule) : String :=
  rule.label ++ " (" ++ rule.pattern.describe ++ ")"

end Opcodes
