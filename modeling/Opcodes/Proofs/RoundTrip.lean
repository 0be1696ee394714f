import Opcodes.Proofs.Aliases
import Opcodes.Proofs.Lookups
import Opcodes.Proofs.Searches

/-!
# From mnemonics to bytes and back

What the search for mnemonics prints is looked up by its second columns, and
gives the mnemonics again. What a look-up prints of a byte is a mnemonic that is
found at that byte, or else the owner of the mnemonic that the byte repeats.
-/

namespace Opcodes.Proofs.RoundTrip

open Accounts Aliases Browse CommandLine Identifiers Listing Lookups Ownership PrintedText
open Requests Spelling
open Searches (Told exists_told)
open Text.Hex (marked)

/-! ## Mnemonics that are found -/

/-- What is printed of a mnemonic that a byte owns. -/
def answer (mnemonic : String) (byte : UInt8) : String :=
  mnemonic ++ " " ++ marked byte

/-- What is printed of mnemonics that are all owned. -/
def answers (found : List (String × UInt8)) : String :=
  String.join ((found.map fun pair => answer pair.1 pair.2).map fun line => line ++ "\n")

/-- Each of the mnemonics is owned by the byte that is paired with it. -/
def Owned (table : Table) (found : List (String × UInt8)) : Prop :=
  ∀ pair ∈ found, table.find? pair.1 = some pair.2

section Found

variable {table : Table} {found : List (String × UInt8)}

theorem exists_owned {mnemonics : List String}
    (known : ∀ mnemonic ∈ mnemonics, ∃ byte, table.find? mnemonic = some byte) :
    ∃ found, found.map Prod.fst = mnemonics ∧ Owned table found := by
  induction mnemonics with
  | nil => exact ⟨[], rfl, by simp [Owned]⟩
  | cons mnemonic rest ih =>
      obtain ⟨⟨byte, first⟩, others⟩ := List.forall_mem_cons.mp known
      obtain ⟨found, rfl, owned⟩ := ih others
      exact ⟨(mnemonic, byte) :: found, rfl, List.forall_mem_cons.mpr ⟨first, owned⟩⟩

theorem Owned.told (owned : Owned table found) :
    Told table (found.map Prod.fst) (found.map fun pair => answer pair.1 pair.2 ++ "\n") [] := by
  induction found with
  | nil => exact .nil
  | cons pair rest ih =>
      obtain ⟨first, others⟩ := List.forall_mem_cons.mp owned
      exact .found first (ih others)

theorem Owned.perform (owned : Owned table found) (medium : Medium) (naming : Naming) :
    perform medium naming table (.find (found.map Prod.fst)) = .success (answers found) "" := by
  rw [owned.told.perform, if_pos rfl, answers, List.map_map]
  rfl

/-- Only mnemonics that are all owned are found without a failure. -/
theorem exists_owned_of_status {medium : Medium} {naming : Naming} {mnemonics : List String}
    (succeeds : (perform medium naming table (.find mnemonics)).status = 0) :
    ∃ found, found.map Prod.fst = mnemonics ∧ Owned table found := by
  obtain ⟨lines, missed, told⟩ := exists_told table mnemonics
  rw [told.perform] at succeeds
  by_cases complete : missed = []
  · exact exists_owned (told.missed_eq_nil_iff.mp complete)
  · rw [if_neg complete] at succeeds
    cases succeeds

end Found

/-! ## Second columns -/

/-- The second columns of the lines of a text. -/
def secondColumns (text : String) : List String :=
  (lines text).filterMap fun line => (columns line)[1]?

theorem secondColumn_answer {mnemonic : String} (identifier : IsIdentifier mnemonic)
    (byte : UInt8) : (columns (answer mnemonic byte))[1]? = some (marked byte) := by
  have nonempty : marked byte ≠ "" := by
    intro empty
    have shape := Text.Hex.toList_marked byte
    rw [empty] at shape
    cases shape
  rw [answer, columns_append (identifier.not_mem (by decide)),
    columns_of_unbroken (unbroken_marked byte) nonempty]
  rfl

theorem oneLine_answer {mnemonic : String} (identifier : IsIdentifier mnemonic)
    (byte : UInt8) : '\n' ∉ (answer mnemonic byte).toList :=
  (((printable_of_isIdentifier identifier).append (by decide)).append
    (printable_marked byte)).not_mem (by decide)

theorem secondColumns_answers {found : List (String × UInt8)}
    (identifiers : ∀ pair ∈ found, IsIdentifier pair.1) :
    secondColumns (answers found) = (found.map Prod.snd).map marked := by
  have printed : lines (answers found) = found.map fun pair => answer pair.1 pair.2 := by
    refine lines_join fun line member => ?_
    obtain ⟨pair, inside, rfl⟩ := List.mem_map.mp member
    exact oneLine_answer (identifiers pair inside) pair.2
  rw [secondColumns, printed, List.filterMap_map, List.map_map, ← List.filterMap_eq_map]
  exact List.filterMap_congr fun pair member =>
    secondColumn_answer (identifiers pair member) pair.2

/-! ## Lines that tell of an alias -/

def TellsAlias (line : String) : Prop :=
  "  alias".toList <+: line.toList

instance {line : String} : Decidable (TellsAlias line) :=
  inferInstanceAs (Decidable ("  alias".toList <+: line.toList))

/-- A line that begins with another word does not tell of an alias. -/
theorem not_tellsAlias {first : String} (long : 7 ≤ first.toList.length)
    (other : ¬ TellsAlias first) (rest : String) : ¬ TellsAlias (first ++ rest) := by
  intro tells
  rw [TellsAlias, String.toList_append] at tells
  exact other (List.prefix_of_prefix_length_le tells (List.prefix_append _ _) long)

theorem tellsAlias_of_mem_details {naming : Naming} {table : Table} {byte : UInt8}
    {line : String} (member : line ∈ details naming table byte) (tells : TellsAlias line) :
    ∃ owner, table.aliasOf? byte = some owner ∧ line = Lookup.aliasLine table owner := by
  rcases mem_details member with rfl | rfl | rfl | aliased
  · unfold Lookup.familyLine at tells
    rw [String.append_assoc, String.append_assoc] at tells
    exact absurd tells (not_tellsAlias (by decide) (by decide) _)
  · exact absurd tells (not_tellsAlias (by decide) (by decide) _)
  · exact absurd tells (not_tellsAlias (by decide) (by decide) _)
  · exact aliased

/-- A block titled by a byte and a mnemonic that tells of no alias. -/
inductive Names (mnemonic : String) (byte : UInt8) : List String → Prop where
  | intro {details : List String} (owns : ∀ line ∈ details, ¬ TellsAlias line) :
      Names mnemonic byte ((marked byte ++ " " ++ mnemonic) :: details)

/-! ## Answers to answers -/

theorem find?_avc2_iff {mnemonic : String} {byte : UInt8} :
    Avc2.table.find? mnemonic = some byte ↔
      (Avc2.table.instruction byte).mnemonic? = some mnemonic :=
  find?_eq_some_iff_mnemonic? unambiguous_avc2

theorem undashed_of_isIdentifier {word : String} (identifier : IsIdentifier word) :
    Undashed word := by
  intro dashed
  have letter := identifier.1
  rw [dashed] at letter
  cases letter

theorem undashed_marked (byte : UInt8) : Undashed (marked byte) := by
  rw [Undashed, Text.Hex.toList_marked, List.head?_cons]
  decide

/-- The search for one mnemonic that a byte owns. -/
theorem run_find {mnemonic : String} {byte : UInt8}
    (owns : Avc2.table.find? mnemonic = some byte) (terminal : Bool) :
    run terminal ["find", mnemonic] = ⟨0, answer mnemonic byte ++ "\n", ""⟩ := by
  have undashed : ∀ word ∈ [mnemonic], Undashed word :=
    List.forall_mem_singleton.mpr (undashed_of_isIdentifier (usesIdentifiers_avc2.found owns))
  have owned : Owned Avc2.table [(mnemonic, byte)] := List.forall_mem_singleton.mpr owns
  have printed : answers [(mnemonic, byte)] = answer mnemonic byte ++ "\n" := by
    simp only [answers, List.map_cons, List.map_nil, String.join_cons, String.join_nil,
      String.append_empty]
  rw [Searches.run_find (List.cons_ne_nil _ _) undashed, ← printed]
  exact owned.perform _ _

/-- The look-up of bytes that are given in hexadecimal. -/
theorem run_lookup_marked {bytes : List UInt8} (nonempty : bytes ≠ []) (terminal : Bool) :
    run terminal ("lookup" :: bytes.map marked) =
      ⟨0, accounts Avc2.naming Avc2.table bytes, ""⟩ := by
  have given : bytes.map marked ≠ [] := by simpa using nonempty
  have undashed : ∀ word ∈ bytes.map marked, Undashed word :=
    List.forall_mem_map.mpr fun byte _ => undashed_marked byte
  exact run_lookup (readRequest_written given undashed (written_marked bytes)) terminal

/-- The account of the byte that owns a mnemonic tells of it, and of no alias. -/
theorem names_lines {mnemonic : String} {byte : UInt8}
    (owns : Avc2.table.find? mnemonic = some byte) :
    Names mnemonic byte (Lookup.lines Avc2.naming Avc2.table byte) := by
  have named := find?_avc2_iff.mp owns
  have title : Lookup.title Avc2.table byte = marked byte ++ " " ++ mnemonic := by
    rw [Lookup.title, named]
    rfl
  rw [lines_eq, title]
  refine .intro fun line member tells => ?_
  obtain ⟨owner, aliased, _⟩ := tellsAlias_of_mem_details member tells
  have undefined : Avc2.table.instruction byte = .undefined := instruction_of_alias aliased
  rw [undefined] at named
  cases named

/-- What is printed of an alias leads to its owner, and from there no further. -/
inductive Leads (terminal : Bool) (line : String) : Prop where
  | intro {mnemonic : String} {owner : UInt8} {block : List String}
      (told : line = "  alias   " ++ marked owner ++ " (" ++ mnemonic ++ ")")
      (found : run terminal ["find", mnemonic] = ⟨0, answer mnemonic owner ++ "\n", ""⟩)
      (succeeds : (run terminal ["lookup", marked owner]).status = 0)
      (printed : blocks (run terminal ["lookup", marked owner]).output = [block])
      (names : Names mnemonic owner block) : Leads terminal line

/-- A block names a mnemonic that is found at its byte, or leads to the owner of another. -/
inductive Answered (terminal : Bool) (byte : UInt8) : List String → Prop where
  | named {mnemonic : String} {details : List String}
      (found : run terminal ["find", mnemonic] = ⟨0, answer mnemonic byte ++ "\n", ""⟩) :
      Answered terminal byte ((marked byte ++ " " ++ mnemonic) :: details)
  | undefined {details : List String}
      (leads : ∀ line ∈ details, TellsAlias line → Leads terminal line) :
      Answered terminal byte ((marked byte ++ " undefined") :: details)

theorem leads_of_alias {byte owner : UInt8} (aliased : Avc2.table.aliasOf? byte = some owner)
    (terminal : Bool) : Leads terminal (Lookup.aliasLine Avc2.table owner) := by
  obtain ⟨_, _, mnemonic, produces, _⟩ := aliasOf?_build_eq_some_iff.mp aliased
  obtain ⟨_, _, carried, _⟩ := owner_of_alias aliased
  have named : (Avc2.table.instruction owner).mnemonic? = some mnemonic :=
    carried.trans produces
  have owns := find?_avc2_iff.mpr named
  have looked := run_lookup_marked (List.cons_ne_nil owner []) terminal
  rw [List.map_cons, List.map_nil] at looked
  refine .intro ?_ (run_find owns terminal) ?_ ?_ (names_lines owns)
  · unfold Lookup.aliasLine Instruction.text
    rw [named, Option.getD_some]
  · rw [looked]
  · rw [looked, blocks_accounts legible_avc2]
    rfl

theorem answered_lines (terminal : Bool) (byte : UInt8) :
    Answered terminal byte (Lookup.lines Avc2.naming Avc2.table byte) := by
  rw [lines_eq, Lookup.title]
  cases named : (Avc2.table.instruction byte).mnemonic? with
  | some mnemonic => exact .named (run_find (find?_avc2_iff.mpr named) terminal)
  | none =>
      have titled : marked byte ++ " " ++ "undefined" = marked byte ++ " undefined" := by
        rw [String.append_assoc]
        rfl
      rw [Option.getD_none, titled]
      refine .undefined fun line member tells => ?_
      obtain ⟨owner, aliased, rfl⟩ := tellsAlias_of_mem_details member tells
      exact leads_of_alias aliased terminal

/-- The bytes that a search prints are looked up as the mnemonics asked for. -/
theorem lookup_of_find {terminal : Bool} {arguments : List String} {coloring : Coloring}
    {mnemonics : List String} (asked : readRequest arguments = .ok ⟨coloring, .find mnemonics⟩)
    (nonempty : mnemonics ≠ []) (succeeds : (run terminal arguments).status = 0)
    (other : Bool) :
    ∃ bytes, run other ("lookup" :: secondColumns (run terminal arguments).output) =
        ⟨0, accounts Avc2.naming Avc2.table bytes, ""⟩ ∧
      List.Forall₂ (fun mnemonic byte => Avc2.table.find? mnemonic = some byte)
        mnemonics bytes := by
  rw [run, asked] at succeeds
  obtain ⟨found, rfl, owned⟩ := exists_owned_of_status succeeds
  have printed : run terminal arguments = .success (answers found) "" := by
    rw [run, asked]
    exact owned.perform _ _
  have columns : secondColumns (answers found) = (found.map Prod.snd).map marked :=
    secondColumns_answers fun pair member => usesIdentifiers_avc2.found (owned pair member)
  refine ⟨found.map Prod.snd, ?_, ?_⟩
  · rw [printed, Run.success, columns]
    exact run_lookup_marked (by simpa using nonempty) other
  · rw [List.forall₂_map_left_iff, List.forall₂_map_right_iff, List.forall₂_same]
    exact owned

/-- The search and the look-up undo each other through what they print. -/
theorem find_and_lookup_undo_each_other (terminal other : Bool) :
    (∀ arguments coloring mnemonics,
      readRequest arguments = .ok ⟨coloring, .find mnemonics⟩ → mnemonics ≠ [] →
      (run terminal arguments).status = 0 →
      ∃ output,
        run other ("lookup" :: secondColumns (run terminal arguments).output) =
          ⟨0, output, ""⟩ ∧
        List.Forall₂ (fun mnemonic block => ∃ byte, Names mnemonic byte block)
          mnemonics (blocks output)) ∧
    (∀ arguments coloring bytes, readRequest arguments = .ok ⟨coloring, .lookup bytes⟩ →
      ∃ output,
        run terminal arguments = ⟨0, output, ""⟩ ∧
        List.Forall₂ (Answered other) bytes (blocks output)) := by
  constructor
  · intro arguments coloring mnemonics asked nonempty succeeds
    obtain ⟨bytes, looked, owned⟩ := lookup_of_find asked nonempty succeeds other
    refine ⟨_, looked, ?_⟩
    rw [blocks_accounts legible_avc2, List.forall₂_map_right_iff]
    exact owned.imp fun mnemonic byte owns => ⟨byte, names_lines owns⟩
  · intro arguments coloring bytes asked
    refine ⟨_, run_lookup asked terminal, ?_⟩
    rw [blocks_accounts legible_avc2, List.forall₂_map_right_iff, List.forall₂_same]
    exact fun byte _ => answered_lines other byte

/-- A shuffle and a fixed mnemonic, and the byte that repeats the shuffle. -/
theorem swap_and_lookup_undo_each_other :
    (∃ output,
      run false ("lookup" :: secondColumns (run false ["find", "SWP", "RTI"]).output) =
        ⟨0, output, ""⟩ ∧
      List.Forall₂ (fun mnemonic block => ∃ byte, Names mnemonic byte block) ["SWP", "RTI"]
        (blocks output)) ∧
    ∃ output, run false ["lookup", "0x84"] = ⟨0, output, ""⟩ ∧
      List.Forall₂ (Answered false) [0x84] (blocks output) := by
  have swap : Avc2.table.find? "SWP" = some 0x04 :=
    (find?_eq_some_iff_spells unambiguous_avc2).mpr
      (.shuffle 4 false false (by decide) (by decide) (by decide))
  have interrupt : Avc2.table.find? "RTI" = some 0x83 :=
    (find?_eq_some_iff_spells unambiguous_avc2).mpr (.fixed (by decide))
  have owned : Owned Avc2.table [("SWP", 0x04), ("RTI", 0x83)] :=
    List.forall_mem_cons.mpr ⟨swap, List.forall_mem_singleton.mpr interrupt⟩
  have asked : readRequest ["find", "SWP", "RTI"] = .ok ⟨.auto, .find ["SWP", "RTI"]⟩ := rfl
  have succeeds : (run false ["find", "SWP", "RTI"]).status = 0 := by
    rw [run, asked]
    exact congrArg Run.status (owned.perform _ _)
  exact ⟨(find_and_lookup_undo_each_other false false).1 _ .auto _ asked (by decide) succeeds,
    (find_and_lookup_undo_each_other false false).2 _ .auto [0x84] rfl⟩

end Opcodes.Proofs.RoundTrip
