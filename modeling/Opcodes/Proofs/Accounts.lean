import Opcodes.Listing.Lookup
import Opcodes.Proofs.PrintedText

/-!
# Printed accounts of bytes

The accounts of any number of bytes, printed one after the other, are read back
as one block for each of them. All that this takes is that names and rules are
printable: no line is then cut in two, and only the title of an account is not
indented.
-/

namespace Opcodes.Proofs.Accounts

open Identifiers Listing Ownership PrintedText

/-! ## Lines of an account -/

/-- Whatever is named in an account is printable. -/
structure Legible (naming : Naming) (table : Table) : Prop where
  families : ∀ family, ∀ name ∈ naming.name? family, Printable name
  mnemonics : ∀ byte, ∀ mnemonic ∈ (table.instruction byte).mnemonic?, Printable mnemonic
  rules : ∀ byte, ∀ rule ∈ (table.resolution byte).rule, Printable rule.describe

theorem legible_avc2 : Legible Avc2.naming Avc2.table where
  families family name named :=
    printable_of_isIdentifier (usesIdentifiers_avc2.families family.index name named)
  mnemonics := forall_mnemonic_of_defined fun entry member =>
    printable_of_isIdentifier (usesIdentifiers_avc2.defined entry member)
  rules byte rule governs := by
    have all : ∀ rule ∈ Avc2.rules, Printable rule.describe := by
      decide +kernel
    rw [Avc2.table, InstructionSet.table, rule_resolution_build] at governs
    have found : Avc2.instructionSet.governing? byte = some rule := governs
    exact all rule (List.mem_of_find?_eq_some found)

variable {naming : Naming} {table : Table}

theorem Legible.text (legible : Legible naming table) (byte : UInt8) :
    Printable (table.instruction byte).text :=
  Instruction.text_of_mnemonic? Printable (by decide) (legible.mnemonics byte)

theorem Legible.title (legible : Legible naming table) (byte : UInt8) :
    Printable (Lookup.title table byte) := by
  refine ((printable_marked byte).append (by decide)).append ?_
  have named := legible.mnemonics byte
  cases found : (table.instruction byte).mnemonic? with
  | none => decide
  | some mnemonic => exact named mnemonic found

theorem Legible.familyLine (legible : Legible naming table) (family : Family) :
    Printable (Lookup.familyLine naming family) := by
  have described : Printable (family.describe naming) := by
    unfold Family.describe
    cases named : naming.name? family with
    | none => exact printable_marked family.toByte
    | some name =>
        exact (((printable_marked family.toByte).append (by decide)).append
          (legible.families family name named)).append (by decide)
  have labelled : Printable family.group.label := by
    cases family.group <;> decide
  exact ((Printable.append (by decide) described).append (by decide)).append labelled

theorem printable_modes (modes : Modes) : Printable modes.describe := by
  have letters : ∀ entry ∈ Mode.letters, isPrintable entry.2 = true := by
    decide
  intro character member
  rw [Modes.describe, String.toList_ofList] at member
  obtain ⟨entry, known, rfl⟩ := List.mem_map.mp member
  split
  · exact letters entry known
  · decide

theorem Legible.ruleLine (legible : Legible naming table) (byte : UInt8) :
    Printable (Lookup.ruleLine (table.resolution byte).rule) := by
  have described := legible.rules byte
  refine Printable.append (by decide) ?_
  cases governs : (table.resolution byte).rule with
  | none => decide
  | some rule => exact described rule governs

theorem Legible.aliasLine (legible : Legible naming table) (owner : UInt8) :
    Printable (Lookup.aliasLine table owner) :=
  (((Printable.append (by decide) (printable_marked owner)).append (by decide)).append
    (legible.text owner)).append (by decide)

/-- The lines of an account below its title. -/
def details (naming : Naming) (table : Table) (byte : UInt8) : List String :=
  (Lookup.lines naming table byte).tail

theorem lines_eq (naming : Naming) (table : Table) (byte : UInt8) :
    Lookup.lines naming table byte = Lookup.title table byte :: details naming table byte :=
  rfl

/-- A line below the title tells of the family, the modes or the rule, or of an owner. -/
theorem mem_details {byte : UInt8} {line : String}
    (member : line ∈ details naming table byte) :
    line = Lookup.familyLine naming (table.resolution byte).family ∨
      line = "  modes   " ++ (table.resolution byte).rawModes.describe ∨
      line = Lookup.ruleLine (table.resolution byte).rule ∨
      ∃ owner, table.aliasOf? byte = some owner ∧ line = Lookup.aliasLine table owner := by
  simp only [details, Lookup.lines, List.cons_append, List.nil_append, List.tail_cons,
    List.mem_cons, List.mem_map, Option.mem_toList] at member
  rcases member with family | modes | rule | ⟨owner, found, rfl⟩
  · exact .inl family
  · exact .inr (.inl modes)
  · exact .inr (.inr (.inl rule))
  · exact .inr (.inr (.inr ⟨owner, found, rfl⟩))

theorem printable_lines (legible : Legible naming table) (byte : UInt8) :
    ∀ line ∈ Lookup.lines naming table byte, Printable line := by
  intro line member
  rw [lines_eq, List.mem_cons] at member
  rcases member with rfl | below
  · exact legible.title byte
  · rcases mem_details below with rfl | rfl | rfl | ⟨owner, _, rfl⟩
    · exact legible.familyLine _
    · exact Printable.append (by decide) (printable_modes _)
    · exact legible.ruleLine byte
    · exact legible.aliasLine owner

theorem isIndented_append {first : String} (indented : isIndented first = true)
    (second : String) : isIndented (first ++ second) = true := by
  unfold isIndented at *
  rw [String.toList_append]
  cases shape : first.toList with
  | nil =>
      rw [shape] at indented
      cases indented
  | cons character rest => simpa [shape] using indented

theorem isBlock_lines (naming : Naming) (table : Table) (byte : UInt8) :
    IsBlock (Lookup.lines naming table byte) := by
  rw [lines_eq]
  constructor
  · simp [isIndented, Lookup.title]
  · intro line member
    rcases mem_details member with rfl | rfl | rfl | ⟨owner, _, rfl⟩
    · exact isIndented_append (isIndented_append (isIndented_append (by decide) _) _) _
    · exact isIndented_append (by decide) _
    · exact isIndented_append (by decide) _
    · exact isIndented_append (isIndented_append (isIndented_append
        (isIndented_append (by decide) _) _) _) _

/-! ## Accounts of several bytes -/

/-- The accounts of bytes, one after the other. -/
def accounts (naming : Naming) (table : Table) (bytes : List UInt8) : String :=
  String.join (bytes.map fun byte => (Lookup.document naming table byte).render .plain)

theorem render_lookup (medium : Medium) (byte : UInt8) :
    (Lookup.document naming table byte).render medium =
      String.join ((Lookup.lines naming table byte).map fun line => line ++ "\n") := by
  have plain (text : String) : Span.render medium (Lookup.line text) = text ++ "\n" := by
    cases medium <;> rfl
  rw [Document.render, Lookup.document, List.map_map]
  congr 1
  exact List.map_congr_left fun text _ => plain text

theorem accounts_eq (bytes : List UInt8) :
    accounts naming table bytes =
      String.join ((bytes.flatMap (Lookup.lines naming table)).map fun line => line ++ "\n") := by
  rw [← String.toList_inj, accounts]
  simp only [render_lookup, String.toList_join, List.flatMap_map, List.flatMap_assoc]

theorem lines_accounts (legible : Legible naming table) (bytes : List UInt8) :
    lines (accounts naming table bytes) = bytes.flatMap (Lookup.lines naming table) := by
  rw [accounts_eq]
  refine lines_join fun line member => ?_
  obtain ⟨byte, _, inside⟩ := List.mem_flatMap.mp member
  exact (printable_lines legible byte line inside).not_mem (by decide)

/-- The blocks of printed accounts are the accounts. -/
theorem blocks_accounts (legible : Legible naming table) (bytes : List UInt8) :
    blocks (accounts naming table bytes) = bytes.map (Lookup.lines naming table) := by
  rw [blocks, lines_accounts legible, List.flatMap_def]
  refine splitBy_flatten fun block member => ?_
  obtain ⟨byte, _, rfl⟩ := List.mem_map.mp member
  exact isBlock_lines naming table byte

/-- The lines of printed accounts that are not indented are their titles. -/
theorem titles_accounts (legible : Legible naming table) (bytes : List UInt8) :
    titles (accounts naming table bytes) = bytes.map (Lookup.title table) := by
  rw [titles, lines_accounts legible, List.filter_flatMap, List.map_eq_flatMap]
  congr 1
  funext byte
  exact (isBlock_lines naming table byte).filter

/-- A title begins with the byte. -/
theorem head?_columns_title (table : Table) (byte : UInt8) :
    (columns (Lookup.title table byte)).head? = some (Text.Hex.marked byte) := by
  rw [Lookup.title, columns_append (unbroken_marked byte)]
  rfl

/-- The lines of printed accounts that are not indented begin with the bytes. -/
theorem firstColumns_accounts (legible : Legible naming table) (bytes : List UInt8) :
    (titles (accounts naming table bytes)).map (fun line => (columns line).head?) =
      (bytes.map Text.Hex.marked).map some := by
  rw [titles_accounts legible, List.map_map, List.map_map]
  refine List.map_congr_left fun byte _ => ?_
  rw [Function.comp_apply, Function.comp_apply, head?_columns_title]

end Opcodes.Proofs.Accounts
