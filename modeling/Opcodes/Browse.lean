import Opcodes.Avc2
import Opcodes.ByteLiteral
import Opcodes.CommandLine.Level
import Opcodes.Keyword
import Opcodes.Listing.Find
import Opcodes.Listing.Grid
import Opcodes.Listing.Lines
import Opcodes.Listing.Lookup
import Opcodes.Run

/-!
# The program that browses the table

Four commands show the opcode table: as a grid, as a list, byte by byte, and by
mnemonic. A setting in front of the command says whether colours are used.
-/

namespace Opcodes.Browse

open CommandLine

def program : String :=
  "optable"

def about : String :=
  "Opcode table for the avc2 stack machine"

def version : String :=
  "0.1.0"

/-- What the program is asked to show. -/
inductive Command where
  | grid
  | list (all : Bool)
  | lookup (bytes : List UInt8)
  | find (mnemonics : List String)
deriving DecidableEq, Repr

structure Request where
  coloring : Coloring
  command : Command
deriving DecidableEq, Repr

/-- The switch that asks what a level is about. -/
def helpSwitch (Settings : Type) : Switch Settings :=
  ⟨some "help", some 'h', "--help", .inform about⟩

def topLevel : Level Coloring where
  switches :=
    [⟨some "color", none, "--color <COLOR>",
        .assign fun keyword _ => (Coloring.read keyword).toOption⟩,
      helpSwitch Coloring,
      ⟨some "version", some 'V', "--version", .inform (program ++ " " ++ version)⟩]
  commands := ["grid", "list", "lookup", "find", "help"]

/-- The level of the grid, which takes nothing more. -/
def gridLevel : Level Unit where
  switches := [helpSwitch Unit]

/-- The level of the list, which may ask for undefined bytes too. -/
def listLevel : Level Bool where
  switches := [⟨some "all", some 'a', "--all", .mark fun _ => true⟩, helpSwitch Bool]

def lookupLevel : Level (List UInt8) where
  switches := [helpSwitch (List UInt8)]
  operands := some ⟨"<BYTES>...", fun text bytes =>
    match ByteLiteral.read text with
    | .error error => .error (error.message text)
    | .ok byte => .ok (bytes ++ [byte])⟩

def findLevel : Level (List String) where
  switches := [helpSwitch (List String)]
  operands := some ⟨"<NAMES>...", fun mnemonic mnemonics => .ok (mnemonics ++ [mnemonic])⟩

/-- Follows the words behind a call for help: one may name a command, which holds no other. -/
def readHelp : List String → Stop
  | [] => .informed about
  | word :: rest =>
      if topLevel.commands.contains word then
        match rest with
        | [] => .informed about
        | other :: _ => .refused (.unrecognizedCommand other)
      else
        .refused (.unrecognizedCommand word)

def readCommand (name : String) (words : List String) : Except Stop Command :=
  match name with
  | "grid" => (gridLevel.read () words).map fun _ => .grid
  | "list" => (listLevel.read false words).map .list
  | "lookup" => (lookupLevel.read [] words).map .lookup
  | "find" => (findLevel.read [] words).map .find
  | _ => .error (readHelp words)

/-- Ends the top level behind its command, or where a command is missing. -/
def readRest (progress : Progress Coloring) : Option (String × List String) → Except Stop Request
  | none =>
      match progress.settle with
      | .error stop => .error stop
      | .ok settled =>
          if settled.used.isEmpty then
            .error (.refused (.noArguments about))
          else
            .error (.refused (.missingCommand program))
  | some (name, words) =>
      match readCommand name words with
      | .error stop => .error stop
      | .ok command =>
          match progress.settle with
          | .error stop => .error stop
          | .ok settled => .ok ⟨settled.settings, command⟩

/-- Reads the arguments of the program. -/
def readRequest (arguments : List String) : Except Stop Request :=
  match topLevel.walk (.start .auto) arguments with
  | .error stop => .error stop
  | .ok (progress, left) => readRest progress left

/-- How many bytes of a table are defined. -/
def tally (table : Table) : String :=
  toString table.defined.length ++ " of " ++ toString table.size ++ " opcodes defined\n"

def unknownLine (mnemonic : String) : String :=
  "unknown mnemonic " ++ mnemonic ++ "\n"

/-- The documents that a command shows, one after the other. -/
def documents (naming : Naming) (table : Table) : Command → List Document
  | .grid => [Listing.Grid.document table]
  | .list all => [Listing.Lines.document all table]
  | .lookup bytes => bytes.map (Listing.Lookup.document naming table)
  | .find mnemonics => [Listing.Find.document table mnemonics]

/-- What a command says beside the documents. -/
def remarks (table : Table) : Command → String
  | .grid => tally table
  | .list _ => tally table
  | .lookup _ => ""
  | .find mnemonics => String.join ((Listing.Find.unknown table mnemonics).map unknownLine)

/-- Carries out a command on a medium that never runs out of room. -/
def perform (medium : Medium) (naming : Naming) (table : Table) (command : Command) : Run :=
  let shown := documents naming table command
  let output := String.join (shown.map (Document.render medium))
  match shown.findSome? fun document => document.complaint with
  | none => .success output (remarks table command)
  | some complaint => .failed output (remarks table command) complaint.failure

/-- Where colours go, given whether the output is a terminal. -/
def medium (terminal : Bool) : Coloring → Medium
  | .always => .terminal
  | .never => .plain
  | .auto => if terminal then .terminal else .plain

/-- The run of the program on its arguments. -/
def run (terminal : Bool) (arguments : List String) : Run :=
  match readRequest arguments with
  | .error stop => .ofStop stop
  | .ok request =>
      perform (medium terminal request.coloring) Avc2.naming Avc2.table request.command

end Opcodes.Browse
