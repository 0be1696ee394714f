import Opcodes.Browse
import Opcodes.Generate

/-!
# The two programs

One executable serves both programs: called under the name of the generator it
generates, and under any other name it browses.
-/

namespace Opcodes.Main

/-- Prints what a run leaves behind, and gives its status. -/
def finish (run : Run) : IO UInt32 := do
  (← IO.getStdout).putStr run.output
  (← IO.getStderr).putStr run.errors
  return run.status.toUInt32

/-- What kept a file from being created, with the number of the error. -/
def cause : IO.Error → String
  | .noFileOrDirectory _ code details
  | .permissionDenied _ code details
  | .inappropriateType _ code details
  | .invalidArgument _ code details
  | .resourceExhausted _ code details => details ++ " (os error " ++ toString code ++ ")"
  | error => toString error

/-- Writes a file and tells how that went. -/
def create (path : String) (emission : Emission) : IO Run := do
  try
    IO.FS.writeFile path (Generate.text emission)
    return Generate.created path emission
  catch error =>
    return Generate.notCreated path (cause error)

/-- Carries out a plan of the generator. -/
def generate (arguments : List String) : IO UInt32 := do
  match Generate.plan arguments with
  | .finish run => finish run
  | .create path emission => finish (← create path emission)

def browse (arguments : List String) : IO UInt32 := do
  finish (Browse.run (← (← IO.getStdout).isTty) arguments)

end Opcodes.Main

/-- Runs the program under whose name the executable was called. -/
def main (arguments : List String) : IO UInt32 := do
  let called := (← IO.appPath).fileName.getD Opcodes.Browse.program
  if called = Opcodes.Source.generator then
    Opcodes.Main.generate arguments
  else
    Opcodes.Main.browse arguments
