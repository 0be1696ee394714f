import Opcodes.Document
import Opcodes.Keyword
import Opcodes.Table
import Opcodes.Text.Quoted

/-!
# Declarations in Rust

A table as Rust source: either one array of names, indexed by the byte, or one
constant per mnemonic. The fixed text in front of the first entry is all in one
line, and a blank parts it from that entry. White space at the end of the text
is dropped for a single line end.
-/

namespace Opcodes.Source

/-- The program that the generated text names as its author. -/
def generator : String :=
  "tablegen"

/-- The comment that opens the generated text. -/
def banner : String :=
  "// Generated by " ++ generator ++ ", do not edit."

/-- What an array has for a byte. -/
def value : Option String → String
  | none => "None"
  | some name => "Some(" ++ Text.Quoted.literal name ++ ")"

theorem value_of_isAlphanum {name : String}
    (plain : ∀ character ∈ name.toList, character.isAlphanum = true) :
    value (some name) = "Some(\"" ++ name ++ "\")" := by
  rw [value, Text.Quoted.literal_of_isAlphanum plain, String.ext_iff]
  simp

/-- The element of a byte, with the byte in a comment. -/
def element (byte : UInt8) (mnemonic : Option String) : String :=
  value mnemonic ++ ", // " ++ Text.Hex.marked byte ++ "\n"

def constant (byte : UInt8) (mnemonic : String) : String :=
  "#[allow(non_upper_case_globals)] pub const " ++ mnemonic ++ ": u8 = " ++
    Text.Hex.marked byte ++ ";\n"

/-- The text between the banner and the entries. -/
def heading : Emission → String
  | .names => " pub static OPCODE_NAMES: [Option<&str>; 256] = ["
  | .consts => ""

def entries (table : Table) : Emission → List String
  | .names => table.toList.map fun (byte, instruction) => element byte instruction.mnemonic?
  | .consts => table.defined.map fun (byte, mnemonic) => constant byte mnemonic

/-- The blank in front of the first entry, or the end of a text without entries. -/
def gap (entries : List String) : String :=
  if entries.isEmpty then "\n" else " "

theorem gap_cons (entry : String) (rest : List String) : gap (entry :: rest) = " " :=
  rfl

def closing : Emission → String
  | .names => " ];\n"
  | .consts => ""

def pieces (table : Table) (emission : Emission) : List String :=
  banner :: heading emission :: gap (entries table emission) ::
    (entries table emission ++ [closing emission])

def document (table : Table) (emission : Emission) : Document where
  spans := (pieces table emission).map fun text => ⟨text, none⟩
  overflow := .formatting

/-- The generated text. -/
def text (table : Table) (emission : Emission) : String :=
  (document table emission).render .plain

theorem text_eq (table : Table) (emission : Emission) :
    text table emission =
      banner ++ heading emission ++ gap (entries table emission) ++
        String.join (entries table emission) ++ closing emission := by
  have pieces : text table emission = String.join (Source.pieces table emission) := by
    rw [text, Document.render, document, List.map_map]
    exact congrArg String.join (List.map_id _)
  simp only [pieces, Source.pieces, String.join_cons, String.join_append, String.join_nil,
    String.append_empty, String.append_assoc]

end Opcodes.Source
