import Opcodes.Listing.Lines
import Opcodes.Proofs.LineReading

/-!
# The list read back

A line of the list holds a byte in two digits and, behind a blank, its mnemonic;
a line without the blank is one of an undefined byte. As long as no mnemonic
breaks its line, the list has one line for each byte in turn, and reading them
gives back the mnemonics of the table. Without the undefined bytes it is the
same list without their lines.
-/

namespace Opcodes.Proofs.ListedNames

open Identifiers LineReading Listing Ownership PrintedText
open Text.Hex (pair)

/-! ## Lines -/

/-- What a line says of a byte: its mnemonic, or that it has none. -/
def readLine? (line : String) : Option (UInt8 × Option String) :=
  match readByte? line.toList with
  | none => none
  | some (byte, []) => some (byte, none)
  | some (byte, blank :: mnemonic) =>
      if blank = ' ' then some (byte, some (String.ofList mnemonic)) else none

def entryLine (byte : UInt8) : Option String → String
  | none => pair byte
  | some mnemonic => pair byte ++ " " ++ mnemonic

theorem toList_entryLine (byte : UInt8) (mnemonic : String) :
    (entryLine byte (some mnemonic)).toList = (pair byte).toList ++ ' ' :: mnemonic.toList := by
  simp [entryLine]

/-- The lines that can be read are those of bytes with and without a mnemonic. -/
theorem readLine?_eq_some_iff {line : String} {byte : UInt8} {mnemonic : Option String} :
    readLine? line = some (byte, mnemonic) ↔ line = entryLine byte mnemonic := by
  constructor
  · intro read
    unfold readLine? at read
    split at read
    · cases read
    · rename_i digits
      cases read
      have whole := readByte?_eq_some_iff.mp digits
      rwa [List.append_nil, String.toList_inj] at whole
    · rename_i blank name digits
      obtain ⟨rfl, same⟩ := Option.ite_none_right_eq_some.mp read
      cases same
      have whole := readByte?_eq_some_iff.mp digits
      rw [String.ext_iff, whole, toList_entryLine, String.toList_ofList]
  · rintro rfl
    cases mnemonic with
    | none =>
        have digits := readByte?_pair byte []
        rw [List.append_nil] at digits
        rw [readLine?, entryLine, digits]
    | some name =>
        have digits := readByte?_pair byte (' ' :: name.toList)
        rw [readLine?, toList_entryLine, digits]
        simp

theorem render_line (all : Bool) (byte : UInt8) (instruction : Instruction) :
    String.join ((Lines.line all byte instruction).map (Span.render .plain)) =
      if all || instruction.isDefined then entryLine byte instruction.mnemonic? ++ "\n"
      else "" := by
  have defined := Instruction.isSome_mnemonic? instruction
  unfold Lines.line Instruction.text
  cases named : instruction.mnemonic? with
  | none =>
      rw [named] at defined
      cases all <;> simp [← defined, entryLine, Span.render, Span.lineEnd]
  | some mnemonic =>
      rw [named] at defined
      simp [← defined, entryLine, Span.render, Span.lineEnd, String.append_assoc]

/-- The lines of entries follow each other, without those that are not listed. -/
theorem render_entries (all : Bool) (entries : List (UInt8 × Instruction)) :
    String.join ((entries.flatMap fun entry => Lines.line all entry.1 entry.2).map
        (Span.render .plain)) =
      unlines ((entries.filter fun entry => all || entry.2.isDefined).map
        fun entry => entryLine entry.1 entry.2.mnemonic?) := by
  induction entries with
  | nil => rfl
  | cons entry rest ih =>
      rw [List.flatMap_cons, List.map_append, String.join_append, render_line, ih, List.filter_cons]
      split <;> simp

/-! ## The whole list -/

def listed (all : Bool) (table : Table) : String :=
  (Lines.document all table).render .plain

/-- No mnemonic breaks its line. -/
def OneLine (table : Table) : Prop :=
  ∀ byte, ∀ mnemonic ∈ (table.instruction byte).mnemonic?, '\n' ∉ mnemonic.toList

theorem oneLine_avc2 : OneLine Avc2.table :=
  forall_mnemonic_of_defined fun entry member =>
    (usesIdentifiers_avc2.defined entry member).not_mem (by decide)

/-- The line of a byte, whether it is listed or not. -/
def lineOf (table : Table) (byte : UInt8) : String :=
  entryLine byte (table.instruction byte).mnemonic?

theorem oneLine_lineOf {table : Table} (oneLine : OneLine table) (byte : UInt8) :
    '\n' ∉ (lineOf table byte).toList := by
  have digits := oneLine_pair byte
  unfold lineOf
  cases named : (table.instruction byte).mnemonic? with
  | none => exact digits
  | some mnemonic =>
      have name := oneLine byte mnemonic named
      rw [toList_entryLine, List.mem_append, List.mem_cons, not_or, not_or]
      exact ⟨digits, by decide, name⟩

/-- A list holds the lines of the listed bytes in turn. -/
theorem holds_listed {table : Table} (ordered : InOrder table) (oneLine : OneLine table)
    (all : Bool) :
    Holds (listed all table)
      ((Byte.all.filter fun byte => all || (table.instruction byte).isDefined).map
        (lineOf table)) := by
  have text : listed all table =
      unlines ((Byte.all.filter fun byte => all || (table.instruction byte).isDefined).map
        (lineOf table)) := by
    rw [listed, Document.render, Lines.document, ordered.toList_eq, render_entries,
      List.filter_map, List.map_map]
    rfl
  rw [text]
  refine holds_unlines fun line member => ?_
  obtain ⟨byte, _, rfl⟩ := List.mem_map.mp member
  exact oneLine_lineOf oneLine byte

theorem readLine?_lineOf (table : Table) (byte : UInt8) :
    readLine? (lineOf table byte) = some (byte, (table.instruction byte).mnemonic?) :=
  readLine?_eq_some_iff.mpr rfl

theorem holds_listed_all {table : Table} (ordered : InOrder table) (oneLine : OneLine table) :
    Holds (listed true table) (Byte.all.map (lineOf table)) := by
  have holds := holds_listed ordered oneLine true
  simpa only [Bool.true_or, List.filter_true] using holds

theorem holds_listed_defined {table : Table} (ordered : InOrder table)
    (oneLine : OneLine table) :
    Holds (listed false table)
      ((Byte.all.filter fun byte => (table.instruction byte).isDefined).map (lineOf table)) := by
  have holds := holds_listed ordered oneLine false
  simpa only [Bool.false_or] using holds

/-- Tables with the same list have the same mnemonics, since the list can be read. -/
theorem listed_eq_iff {table other : Table} (ordered : InOrder table) (oneLine : OneLine table)
    (ordered' : InOrder other) (oneLine' : OneLine other) :
    listed true table = listed true other ↔
      ∀ byte, (table.instruction byte).mnemonic? = (other.instruction byte).mnemonic? := by
  have holds := holds_listed_all ordered oneLine
  have holds' := holds_listed_all ordered' oneLine'
  constructor
  · intro same byte
    have lines : Byte.all.map (lineOf table) = Byte.all.map (lineOf other) := by
      rw [← holds.lines, same, holds'.lines]
    have read := readLine?_lineOf table byte
    rw [map_all_inj.mp lines byte, readLine?_lineOf] at read
    exact (Prod.mk.inj (Option.some.inj read)).2.symm
  · intro same
    have lines : lineOf table = lineOf other := by
      funext byte
      rw [lineOf, same, lineOf]
    rw [← holds.ended, lines, holds'.ended]

/-- The list has an ended line for each byte in turn, of which the byte and its mnemonic are read
back. Without the undefined bytes it has the same lines for the others, and the defined mnemonics
are read back. So tables have the same list of all bytes exactly if they have the same
mnemonics. -/
theorem list_recovers_mnemonics (table : Table) (ordered : InOrder table)
    (oneLine : OneLine table) :
    (∃ line : UInt8 → String,
      Holds (listed true table) (Byte.all.map line) ∧
      Holds (listed false table)
        ((Byte.all.filter fun byte => (table.instruction byte).isDefined).map line) ∧
      ∀ byte, readLine? (line byte) = some (byte, (table.instruction byte).mnemonic?)) ∧
    (lines (listed true table)).length = 256 ∧
    readEach? readLine? (listed true table) =
      some (Byte.all.map fun byte => (byte, (table.instruction byte).mnemonic?)) ∧
    readEach? readLine? (listed false table) =
      some (table.defined.map fun entry => (entry.1, some entry.2)) ∧
    ∀ other, InOrder other → OneLine other →
      (listed true table = listed true other ↔
        ∀ byte, (table.instruction byte).mnemonic? = (other.instruction byte).mnemonic?) := by
  have all := holds_listed_all ordered oneLine
  have defined := holds_listed_defined ordered oneLine
  have read := readLine?_lineOf table
  refine ⟨⟨lineOf table, all, defined, read⟩, ?_, ?_, ?_, ?_⟩
  · rw [all.lines, List.length_map, Byte.length_all]
  · exact all.readEach? fun byte _ => read byte
  · rw [defined.readEach? fun byte _ => read byte, ordered.map_filter_isDefined]
  · exact fun other => listed_eq_iff ordered oneLine

/-- A decoder with a mnemonic of two words, and with an empty one. -/
def spaced (byte : UInt8) : Resolution where
  byte := byte
  instruction :=
    if byte = 0x41 then .atomic "A B" else if byte = 0x42 then .atomic "" else .undefined
  rule := none

theorem spaced_list_recovers_mnemonics :
    InOrder (Table.build spaced) ∧ OneLine (Table.build spaced) ∧
      readEach? readLine? (listed false (Table.build spaced)) =
        some [(0x41, some "A B"), (0x42, some "")] ∧
      listed true (Table.build spaced) ≠ listed true Avc2.table := by
  have ordered : InOrder (Table.build spaced) := inOrder_build fun _ => rfl
  have defined : (Table.build spaced).defined = [(0x41, "A B"), (0x42, "")] := by
    decide +kernel
  have oneLine : OneLine (Table.build spaced) := by
    refine forall_mnemonic_of_defined ?_
    rw [defined]
    decide
  obtain ⟨_, _, _, read, same⟩ := list_recovers_mnemonics _ ordered oneLine
  refine ⟨ordered, oneLine, ?_, fun equal => ?_⟩
  · rw [read, defined]
    rfl
  · have both := (same Avc2.table (inOrder_build fun _ => rfl) oneLine_avc2).mp equal 0x41
    revert both
    decide +kernel

end Opcodes.Proofs.ListedNames
