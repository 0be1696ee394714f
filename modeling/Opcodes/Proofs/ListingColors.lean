import Opcodes.Listing.Grid
import Opcodes.Listing.Lines
import Opcodes.Proofs.EscapeSequences
import Opcodes.Proofs.HexText
import Opcodes.Proofs.Identifiers

/-!
# Colours of the listings

The grid and the list are the only listings with colours. They put a style on
what they show of an instruction and on nothing else, so as long as mnemonics
hold neither escape characters nor line ends, colours change no character and
none is on at the end of a line.
-/

namespace Opcodes.Proofs.ListingColors

open EscapeSequences Identifiers Listing Ownership

/-! ## What is styled -/

/-- The listings that use colours. -/
inductive Overview where
  | grid
  | lines (all : Bool)
deriving DecidableEq, Repr

namespace Overview

def document (table : Table) : Overview → Document
  | grid => Grid.document table
  | lines all => Lines.document all table

/-- What is shown of an instruction. -/
def shown : Overview → Instruction → String
  | grid => Instruction.cell
  | lines _ => Instruction.text

end Overview

variable {table : Table}

/-- Plain text without escape characters, or what is shown of the instruction of a byte. -/
inductive Shows (overview : Overview) (table : Table) : Span → Prop where
  | plain {text : String} (free : '\x1b' ∉ text.toList) : Shows overview table ⟨text, none⟩
  | instruction (byte : UInt8) (style : Style) :
      Shows overview table ⟨overview.shown (table.instruction byte), some style⟩

theorem shows_lineEnd (overview : Overview) : Shows overview table .lineEnd :=
  .plain (by decide)

theorem shows_header : ∀ span ∈ Grid.header, Shows .grid table span := by
  have headings : ∀ column ∈ Grid.places, '\x1b' ∉ (Grid.heading column).text.toList := by
    decide
  intro span member
  simp only [Grid.header, List.cons_append, List.mem_cons, List.mem_append, List.mem_map,
    List.not_mem_nil, or_false] at member
  rcases member with rfl | ⟨column, placed, rfl⟩ | rfl
  · exact .plain (by decide)
  · exact .plain (headings column placed)
  · exact shows_lineEnd .grid

theorem shows_row {place : Nat} (placed : place ∈ Grid.places) :
    ∀ span ∈ Grid.row table place, Shows .grid table span := by
  have labels : ∀ row ∈ Grid.places, '\x1b' ∉ (Grid.label row ++ " ").toList := by
    decide
  intro span member
  simp only [Grid.row, List.cons_append, List.mem_cons, List.mem_append, List.mem_map,
    List.not_mem_nil, or_false] at member
  rcases member with rfl | ⟨column, _, rfl⟩ | rfl
  · exact .plain (labels place placed)
  · exact .instruction (Grid.byteAt place column) _
  · exact shows_lineEnd .grid

theorem free_pair (byte : UInt8) : '\x1b' ∉ (Text.Hex.pair byte).toList :=
  HexText.not_mem_pair (by decide) byte

theorem exists_instruction_of_mem {entry : UInt8 × Instruction} (member : entry ∈ table.toList) :
    ∃ byte, table.instruction byte = entry.2 := by
  have listed := List.mem_map_of_mem (f := fun entry => entry.2) member
  rw [toList_map_instruction] at listed
  obtain ⟨byte, _, same⟩ := List.mem_map.mp listed
  exact ⟨byte, same⟩

theorem shows_line {all : Bool} {entry : UInt8 × Instruction} (listed : entry ∈ table.toList) :
    ∀ span ∈ Lines.line all entry.1 entry.2, Shows (.lines all) table span := by
  obtain ⟨byte, same⟩ := exists_instruction_of_mem listed
  have digits : '\x1b' ∉ (Text.Hex.pair entry.1 ++ " ").toList := by
    rw [String.toList_append, List.mem_append, not_or]
    exact ⟨free_pair entry.1, by decide⟩
  unfold Lines.line
  intro span member
  split at member
  · simp only [List.mem_cons, List.not_mem_nil, or_false] at member
    rcases member with rfl | rfl | rfl
    · exact .plain digits
    · rw [← same]
      exact .instruction byte _
    · exact shows_lineEnd _
  · split at member
    · simp only [List.mem_cons, List.not_mem_nil, or_false] at member
      rcases member with rfl | rfl
      · exact .plain (free_pair entry.1)
      · exact shows_lineEnd _
    · cases member

/-- Only what is shown of an instruction has a style. -/
theorem shows_of_mem (overview : Overview) (table : Table) :
    ∀ span ∈ (overview.document table).spans, Shows overview table span := by
  intro span member
  cases overview with
  | grid =>
      rcases List.mem_append.mp member with inHeader | inRows
      · exact shows_header span inHeader
      · obtain ⟨place, placed, inRow⟩ := List.mem_flatMap.mp inRows
        exact shows_row placed span inRow
  | lines all =>
      obtain ⟨entry, listed, inLine⟩ := List.mem_flatMap.mp member
      exact shows_line listed span inLine

/-! ## What colours do -/

/-- A text holds no escape character and no line end. -/
def Bare (text : String) : Prop :=
  '\x1b' ∉ text.toList ∧ '\n' ∉ text.toList

theorem bare_text (bare : ∀ entry ∈ table.defined, Bare entry.2) (byte : UInt8) :
    Bare (table.instruction byte).text :=
  Instruction.text_of_mnemonic? Bare ⟨by decide, by decide⟩ (forall_mnemonic_of_defined bare byte)

theorem mem_cell {instruction : Instruction} {character : Char}
    (member : character ∈ instruction.cell.toList) :
    character ∈ instruction.text.toList ∨ character = ' ' := by
  rw [Instruction.toList_cell, List.mem_append] at member
  exact member.imp_right List.eq_of_mem_replicate

theorem bare_shown {instruction : Instruction} (bare : Bare instruction.text)
    (overview : Overview) : Bare (overview.shown instruction) := by
  cases overview with
  | lines all => exact bare
  | grid =>
      constructor
      · intro member
        exact (mem_cell member).elim bare.1 (by decide)
      · intro member
        exact (mem_cell member).elim bare.2 (by decide)

theorem Shows.clean {overview : Overview} (bare : ∀ entry ∈ table.defined, Bare entry.2)
    {span : Span} (shows : Shows overview table span) : Clean span := by
  cases shows with
  | plain free => exact ⟨free, fun styled => by cases styled⟩
  | instruction byte style =>
      have shown := bare_shown (bare_text bare byte) overview
      exact ⟨shown.1, fun _ => shown.2⟩

theorem bare_avc2 : ∀ entry ∈ Avc2.table.defined, Bare entry.2 := by
  intro entry member
  have identifier := usesIdentifiers_avc2.defined entry member
  exact ⟨identifier.not_mem (by decide), identifier.not_mem (by decide)⟩

/-- Colours change no character, and they are on only where an instruction is shown. -/
theorem colors_never_leak (overview : Overview) (table : Table)
    (bare : ∀ entry ∈ table.defined, Bare entry.2) :
    withoutSequences ((overview.document table).render .terminal) =
      (overview.document table).render .plain ∧
    NeverLeaks (pieces ((overview.document table).render .terminal).toList) ∧
    ∀ before span after, (overview.document table).spans = before ++ span :: after →
      Off (pieces (Document.render .terminal ⟨before, none, .full⟩).toList) ∧
      Shows overview table span := by
  have clean : ∀ span ∈ (overview.document table).spans, Clean span :=
    fun span member => (shows_of_mem overview table span member).clean bare
  refine ⟨withoutSequences_render fun span member => (clean span member).free,
    neverLeaks_render clean, fun before span after split => ⟨?_, ?_⟩⟩
  · refine (neverLeaks_render fun other member => clean other ?_).atEnd
    rw [split]
    exact List.mem_append_left _ member
  · refine shows_of_mem overview table span ?_
    rw [split]
    exact List.mem_append_right _ List.mem_cons_self

theorem avc2_grid_colors_never_leak :
    withoutSequences ((Grid.document Avc2.table).render .terminal) =
      (Grid.document Avc2.table).render .plain ∧
    NeverLeaks (pieces ((Grid.document Avc2.table).render .terminal).toList) :=
  ⟨(colors_never_leak .grid Avc2.table bare_avc2).1,
    (colors_never_leak .grid Avc2.table bare_avc2).2.1⟩

end Opcodes.Proofs.ListingColors
