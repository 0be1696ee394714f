import Opcodes.Avc2
import Opcodes.CommandLine.Level
import Opcodes.FileTree
import Opcodes.Keyword
import Opcodes.Run
import Opcodes.Source

/-!
# The program that generates declarations

It writes the declarations of the table to its output, or to a file if one is
named. Nothing is written before the whole command line has been accepted, and
a file that cannot be created leaves everything as it was.
-/

namespace Opcodes.Generate

open CommandLine

def about : String :=
  "Emit the avc2 opcode table as Rust source"

def version : String :=
  "0.1.0"

/-- Which declarations are wanted, and in which file. -/
structure Order where
  emission : Emission
  path : Option String
deriving DecidableEq, Repr

def level : Level Order where
  switches :=
    [⟨some "emit", none, "--emit <EMIT>", .assign fun keyword order =>
        (Emission.read keyword).toOption.map fun emission => { order with emission }⟩,
      ⟨none, some 'o', "-o <OUTPUT>", .assign fun path order => some { order with path }⟩,
      ⟨some "help", some 'h', "--help", .inform about⟩,
      ⟨some "version", some 'V', "--version",
        .inform (Source.generator ++ " " ++ version)⟩]

def readOrder (arguments : List String) : Except Stop Order :=
  level.read ⟨.names, none⟩ arguments

def text (emission : Emission) : String :=
  Source.text Avc2.table emission

/-- The run that has written a file. -/
def created (path : String) (emission : Emission) : Run :=
  .success "" ("Wrote " ++ emission.label ++ " table to " ++ path ++ "\n")

/-- The run that could not create a file. -/
def notCreated (path cause : String) : Run :=
  .failed "" "" ⟨"failed to create " ++ path, some cause⟩

/-- What is left to do once the arguments have been read: nothing but to end, or to put the
declarations into a file. -/
inductive Plan where
  | finish (run : Run)
  | create (path : String) (emission : Emission)
deriving DecidableEq, Repr

def plan (arguments : List String) : Plan :=
  match readOrder arguments with
  | .error stop => .finish (.ofStop stop)
  | .ok ⟨emission, none⟩ => .finish (.success (text emission) "")
  | .ok ⟨emission, some path⟩ => .create path emission

/-- The run of the program in a tree of files, and the tree afterwards. -/
def run (tree : FileTree) (arguments : List String) : Run × FileTree :=
  match plan arguments with
  | .finish run => (run, tree)
  | .create path emission =>
      match tree.create path (text emission) with
      | .error error => (notCreated path error.message, tree)
      | .ok grown => (created path emission, grown)

end Opcodes.Generate
