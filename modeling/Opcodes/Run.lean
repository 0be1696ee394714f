import Opcodes.CommandLine.UsageError
import Opcodes.Failure

/-!
# Runs of a program

A run ends with a status: zero for success, one for a failure of the work
itself, two for a command line that was refused.
-/

namespace Opcodes

/-- What a run leaves behind beside files. -/
structure Run where
  status : UInt8
  output : String
  errors : String
deriving DecidableEq, Repr

namespace Run

def success (output errors : String) : Run :=
  ⟨0, output, errors⟩

/-- A run that reports a failure after other error lines. -/
def failed (output errors : String) (failure : Failure) : Run :=
  ⟨1, output, errors ++ failure.report⟩

/-- The run of a command line that was not read to its end. -/
def ofStop : CommandLine.Stop → Run
  | .refused error => ⟨2, "", error.message⟩
  | .informed text => ⟨0, text ++ "\n", ""⟩

/-- A text up to its first line end, to which a carriage return in front of it belongs. -/
def firstLine : List Char → List Char
  | [] => []
  | '\n' :: _ => []
  | '\r' :: '\n' :: _ => []
  | character :: rest => character :: firstLine rest

def firstErrorLine (run : Run) : String :=
  String.ofList (firstLine run.errors.toList)

end Run

end Opcodes
