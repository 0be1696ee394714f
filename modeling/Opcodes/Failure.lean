/-!
# Failures

A failure is a message and, where there is one, the message of its cause.
-/

namespace Opcodes

/-- What went wrong, and why. -/
structure Failure where
  message : String
  cause : Option String := none
deriving DecidableEq, Repr

namespace Failure

/-- The message followed by that of the cause. -/
def chain (failure : Failure) : List String :=
  failure.message :: failure.cause.toList

def summary (failure : Failure) : String :=
  ": ".intercalate failure.chain

/-- The lines that a program prints before it gives up. -/
def report (failure : Failure) : String :=
  match failure.cause with
  | none => "Error: " ++ failure.message ++ "\n"
  | some cause => "Error: " ++ failure.message ++ "\n\nCaused by:\n    " ++ cause ++ "\n"

end Failure

end Opcodes
