import Opcodes.Proofs.LineReading
import Opcodes.Source

/-!
# The generated text read back

Between a fixed header and a fixed closing, the generated text has one line for
each entry: of the array one for each byte in turn, of the constants one for
each defined byte. A blank parts the lines from the header; where there are none,
the header has a line for itself. A line is a frame around a name and two digits,
which are read back from it as long as the name is a word. So both texts hold the
same mnemonics, those of the table.
-/

namespace Opcodes.Proofs.GeneratedLines

open Identifiers LineReading Ownership
open Text.Hex (pair)

/-! ## Frames -/

/-- The fixed text of a line around a name and around the digits behind it. It separates the two so
that the end of the name is seen. -/
structure Frame where
  before : String
  between : String
  behind : String
  separates : ∃ mark ∈ between.toList.head?, mark.isAlphanum = false

namespace Frame

def fill (frame : Frame) (byte : UInt8) (name : String) : String :=
  frame.before ++ name ++ frame.between ++ pair byte ++ frame.behind

/-- The name and the byte that a line has in the frame. -/
def read? (frame : Frame) (line : String) : Option (UInt8 × String) := do
  let named ← skip? frame.before.toList line.toList
  let (name, parted) ← readWord? named
  let byte ← readNumber? frame.between frame.behind parted
  some (byte, name)

/-- The lines that can be read are those with a word in the frame. -/
theorem read?_eq_some_iff {frame : Frame} {line name : String} {byte : UInt8} :
    frame.read? line = some (byte, name) ↔ IsWord name ∧ line = frame.fill byte name := by
  have text : (frame.fill byte name).toList = frame.before.toList ++ (name.toList ++
      (frame.between.toList ++ ((pair byte).toList ++ frame.behind.toList))) := by
    simp only [fill, String.toList_append, List.append_assoc]
  obtain ⟨mark, opens, other⟩ := frame.separates
  have parts (rest : List Char) :
      ∀ character ∈ (frame.between.toList ++ rest).head?, character.isAlphanum = false := by
    intro character first
    rw [List.head?_append, Option.mem_def.mp opens, Option.some_or] at first
    cases first
    exact other
  constructor
  · intro read
    obtain ⟨named, start, read⟩ := Option.bind_eq_some_iff.mp read
    obtain ⟨⟨word, parted⟩, spelled, read⟩ := Option.bind_eq_some_iff.mp read
    obtain ⟨number, numbered, same⟩ := Option.bind_eq_some_iff.mp read
    cases same
    obtain ⟨rfl, isWord, _⟩ := readWord?_eq_some_iff.mp spelled
    refine ⟨isWord, ?_⟩
    rw [String.ext_iff, text, skip?_eq_some_iff.mp start, readNumber?_eq_some_iff.mp numbered]
  · rintro ⟨isWord, rfl⟩
    refine Option.bind_eq_some_iff.mpr ⟨_, skip?_eq_some_iff.mpr text, ?_⟩
    refine Option.bind_eq_some_iff.mpr
      ⟨(name, _), readWord?_eq_some_iff.mpr ⟨rfl, isWord, parts _⟩, ?_⟩
    exact Option.bind_eq_some_iff.mpr ⟨byte, readNumber?_eq_some_iff.mpr rfl, rfl⟩

end Frame

/-! ## Lines -/

/-- The frame of the lines with a name. -/
def frame : Emission → Frame
  | .names => ⟨"Some(\"", "\"), // 0x", "", '"', rfl, rfl⟩
  | .consts => ⟨"#[allow(non_upper_case_globals)] pub const ", ": u8 = 0x", ";", ':', rfl, rfl⟩

/-- The fixed text in front of the digits of a byte without a name. -/
def unnamed : String :=
  "None, // 0x"

def readUnnamed? (line : String) : Option UInt8 :=
  readNumber? unnamed "" line.toList

theorem readUnnamed?_eq_some_iff {line : String} {byte : UInt8} :
    readUnnamed? line = some byte ↔ line = unnamed ++ pair byte := by
  rw [readUnnamed?, readNumber?_eq_some_iff, String.ext_iff, String.toList_append,
    String.toList_empty, List.append_nil]

theorem read?_unnamed (byte : UInt8) : (frame .names).read? (unnamed ++ pair byte) = none := by
  have start : skip? (frame .names).before.toList (unnamed.toList ++ (pair byte).toList) = none :=
    rfl
  rw [Frame.read?, String.toList_append, start]
  rfl

/-- What a line of the generated text says of a byte: its name, or in an array that it has none. -/
def readLine? (emission : Emission) (line : String) : Option (UInt8 × Option String) :=
  match (frame emission).read? line, emission with
  | some (byte, name), _ => some (byte, some name)
  | none, .names => (readUnnamed? line).map fun byte => (byte, none)
  | none, .consts => none

/-- Whether there is a line for a byte with this instruction. -/
def lists : Emission → Instruction → Bool
  | .names, _ => true
  | .consts, instruction => instruction.isDefined

def entryLine (emission : Emission) (byte : UInt8) : Option String → String
  | none => unnamed ++ pair byte
  | some name => (frame emission).fill byte name

theorem readLine?_entryLine {emission : Emission} {instruction : Instruction}
    (listed : lists emission instruction = true)
    (isWord : ∀ name ∈ instruction.mnemonic?, IsWord name) (byte : UInt8) :
    readLine? emission (entryLine emission byte instruction.mnemonic?) =
      some (byte, instruction.mnemonic?) := by
  cases named : instruction.mnemonic? with
  | some name =>
      have read := Frame.read?_eq_some_iff.mpr
        ⟨isWord name named, (rfl : (frame emission).fill byte name = _)⟩
      simp only [readLine?, entryLine, read]
  | none =>
      cases emission with
      | consts =>
          rw [lists, ← Instruction.isSome_mnemonic?, named] at listed
          cases listed
      | names =>
          simp only [readLine?, entryLine, read?_unnamed, readUnnamed?_eq_some_iff.mpr rfl,
            Option.map_some]

/-! ## The whole text -/

/-- The fixed text up to the blank in front of the lines. -/
def header : Emission → String
  | .names =>
      "// Generated by tablegen, do not edit. pub static OPCODE_NAMES: [Option<&str>; 256] = ["
  | .consts => "// Generated by tablegen, do not edit."

def closing : Emission → String
  | .names => " ];\n"
  | .consts => ""

/-- The bytes that have a line. -/
def listed (table : Table) (emission : Emission) : List UInt8 :=
  Byte.all.filter fun byte => lists emission (table.instruction byte)

theorem listed_names (table : Table) : listed table .names = Byte.all :=
  List.filter_true _

/-- What the lines say, each of its byte. -/
def entries (table : Table) (emission : Emission) : List (UInt8 × Option String) :=
  (listed table emission).map fun byte => (byte, (table.instruction byte).mnemonic?)

def lineOf (table : Table) (emission : Emission) (byte : UInt8) : String :=
  entryLine emission byte (table.instruction byte).mnemonic?

/-- All mnemonics are words. -/
def UsesWords (table : Table) : Prop :=
  ∀ byte, ∀ mnemonic ∈ (table.instruction byte).mnemonic?, IsWord mnemonic

theorem element_eq {mnemonic : Option String} (isWord : ∀ name ∈ mnemonic, IsWord name)
    (byte : UInt8) :
    Source.element byte mnemonic = entryLine .names byte mnemonic ++ "\n" := by
  cases mnemonic with
  | none => simp [Source.element, Source.value, entryLine, unnamed, String.ext_iff]
  | some name =>
      rw [Source.element, Source.value_of_isAlphanum (List.all_eq_true.mp (isWord name rfl).2)]
      simp [entryLine, frame, Frame.fill, String.ext_iff]

theorem constant_eq (byte : UInt8) (name : String) :
    Source.constant byte name = entryLine .consts byte (some name) ++ "\n" := by
  have numbered (front : String) : front ++ ": u8 = " ++ Text.Hex.marked byte ++ ";\n" =
      front ++ ": u8 = 0x" ++ pair byte ++ ";" ++ "\n" := by
    simp [String.ext_iff]
  exact numbered _

section

variable {table : Table}

theorem entries_consts (ordered : InOrder table) :
    entries table .consts = table.defined.map fun entry => (entry.1, some entry.2) :=
  ordered.map_filter_isDefined

/-- The entries that are written are the lines, each with its end. -/
theorem sourceEntries_eq (ordered : InOrder table) (words : UsesWords table)
    (emission : Emission) :
    Source.entries table emission =
      ((listed table emission).map (lineOf table emission)).map fun line => line ++ "\n" := by
  cases emission with
  | names =>
      rw [Source.entries, ordered.toList_eq, listed_names, List.map_map, List.map_map]
      exact List.map_congr_left fun byte _ => element_eq (words byte) byte
  | consts =>
      have lines : ((listed table .consts).map (lineOf table .consts)).map
            (fun line => line ++ "\n") =
          (entries table .consts).map fun entry => entryLine .consts entry.1 entry.2 ++ "\n" := by
        rw [entries, List.map_map, List.map_map]
        rfl
      rw [lines, entries_consts ordered, Source.entries, List.map_map]
      exact List.map_congr_left fun entry _ => constant_eq entry.1 entry.2

theorem text_eq (ordered : InOrder table) (words : UsesWords table) (emission : Emission) :
    Source.text table emission =
      header emission ++ (if (listed table emission).isEmpty then "\n" else " ") ++
        unlines ((listed table emission).map (lineOf table emission)) ++ closing emission := by
  rw [Source.text_eq, sourceEntries_eq ordered words, Source.gap, List.isEmpty_map,
    List.isEmpty_map]
  cases emission <;> rfl

theorem oneLine_lineOf (words : UsesWords table) (emission : Emission) (byte : UInt8) :
    '\n' ∉ (lineOf table emission byte).toList := by
  have digits := oneLine_pair byte
  unfold lineOf
  cases named : (table.instruction byte).mnemonic? with
  | none =>
      rw [entryLine, String.toList_append, List.mem_append, not_or]
      exact ⟨by decide, digits⟩
  | some name =>
      have word := (words byte name named).not_mem (by decide : '\n'.isAlphanum = false)
      have fixed : '\n' ∉ (frame emission).before.toList ∧
          '\n' ∉ (frame emission).between.toList ∧ '\n' ∉ (frame emission).behind.toList := by
        cases emission <;> decide
      simp only [entryLine, Frame.fill, String.toList_append, List.mem_append, not_or]
      exact ⟨⟨⟨⟨fixed.1, word⟩, fixed.2.1⟩, digits⟩, fixed.2.2⟩

theorem readLine?_lineOf (words : UsesWords table) (emission : Emission) :
    ∀ byte ∈ listed table emission,
      readLine? emission (lineOf table emission byte) =
        some (byte, (table.instruction byte).mnemonic?) :=
  fun byte member => readLine?_entryLine (List.mem_filter.mp member).2 (words byte) byte

end

/-- A decoder with a mnemonic that starts with a digit, and with one at the last byte. -/
def sparse (byte : UInt8) : Resolution where
  byte := byte
  instruction :=
    if byte = 0x41 then .atomic "2A" else if byte = 0xff then .atomic "Z" else .undefined
  rule := none

end Opcodes.Proofs.GeneratedLines
