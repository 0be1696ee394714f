import Mathlib.Logic.ExistsUnique
import Opcodes.Proofs.BoundedSinks
import Opcodes.Proofs.Identifiers
import Opcodes.Proofs.Requests
import Opcodes.Proofs.Spelling

/-!
# Searches for mnemonics

A search tells, one after the other, the byte of each mnemonic that is owned, and
it misses the others, each as often as it was asked for. It fails if it misses
any, but not before all that is known has been told. So searches can be put
together: their texts follow each other, and what they miss adds up.
-/

namespace Opcodes.Proofs.Searches

open Browse Identifiers Listing Requests Spelling
open Text.Hex (marked)

/-- What is told of mnemonics in turn: the lines of those that a byte owns, and the others. -/
inductive Told (table : Table) : List String → List String → List String → Prop where
  | nil : Told table [] [] []
  | found {mnemonic : String} {byte : UInt8} {asked lines missed : List String}
      (owned : table.find? mnemonic = some byte) (rest : Told table asked lines missed) :
      Told table (mnemonic :: asked) ((mnemonic ++ " " ++ marked byte ++ "\n") :: lines) missed
  | missed {mnemonic : String} {asked lines missed : List String}
      (unowned : table.find? mnemonic = none) (rest : Told table asked lines missed) :
      Told table (mnemonic :: asked) lines (mnemonic :: missed)

theorem exists_told (table : Table) (asked : List String) :
    ∃ lines missed, Told table asked lines missed := by
  induction asked with
  | nil => exact ⟨[], [], .nil⟩
  | cons mnemonic others ih =>
      obtain ⟨lines, missed, rest⟩ := ih
      cases owner : table.find? mnemonic with
      | none => exact ⟨lines, mnemonic :: missed, .missed owner rest⟩
      | some byte => exact ⟨_ :: lines, missed, .found owner rest⟩

namespace Told

variable {table : Table} {asked lines missed : List String}

theorem unique (told : Told table asked lines missed) {otherLines otherMissed : List String}
    (other : Told table asked otherLines otherMissed) :
    otherLines = lines ∧ otherMissed = missed := by
  induction told generalizing otherLines otherMissed with
  | nil =>
      cases other
      exact ⟨rfl, rfl⟩
  | found owned rest ih =>
      cases other with
      | found again others =>
          obtain ⟨rfl, rfl⟩ := ih others
          cases owned.symm.trans again
          exact ⟨rfl, rfl⟩
      | missed unowned others => cases owned.symm.trans unowned
  | missed unowned rest ih =>
      cases other with
      | found owned others => cases owned.symm.trans unowned
      | missed again others =>
          obtain ⟨rfl, rfl⟩ := ih others
          exact ⟨rfl, rfl⟩

/-- Searches one after the other tell and miss as much as one for all their mnemonics. -/
theorem append (told : Told table asked lines missed)
    {later laterLines laterMissed : List String}
    (others : Told table later laterLines laterMissed) :
    Told table (asked ++ later) (lines ++ laterLines) (missed ++ laterMissed) := by
  induction told with
  | nil => exact others
  | found owned rest ih => exact .found owned ih
  | missed unowned rest ih => exact .missed unowned ih

theorem missed_eq_nil_iff (told : Told table asked lines missed) :
    missed = [] ↔ ∀ mnemonic ∈ asked, ∃ byte, table.find? mnemonic = some byte := by
  induction told with
  | nil => simp
  | found owned rest ih => simp [ih, owned]
  | missed unowned rest ih => simp [unowned]

/-! ## Documents -/

theorem unknown (told : Told table asked lines missed) : Find.unknown table asked = missed := by
  induction told with
  | nil => rfl
  | found owned rest ih => simpa [Find.unknown, owned] using ih
  | missed unowned rest ih => simpa [Find.unknown, unowned] using ih

theorem spans (told : Told table asked lines missed) :
    (Find.document table asked).spans = lines.map fun line => ⟨line, none⟩ := by
  simp only [Find.document]
  induction told with
  | nil => rfl
  | found owned rest ih => simp [Find.line?, owned, ih]
  | missed unowned rest ih => simp [Find.line?, unowned, ih]

theorem render (told : Told table asked lines missed) (medium : Medium) :
    (Find.document table asked).render medium = String.join lines := by
  have unstyled (line : String) : Span.render medium ⟨line, none⟩ = line := by
    cases medium <;> rfl
  rw [Document.render, told.spans, List.map_map]
  simp only [Function.comp_def, unstyled, List.map_id']

theorem complaint (told : Told table asked lines missed) :
    (Find.document table asked).complaint =
      if missed = [] then none else some (.unknownMnemonics missed.length asked.length) := by
  simp only [Find.document, Find.complaint?, told.unknown, List.isEmpty_iff]

end Told

/-! ## Reports -/

/-- What is said in the end of mnemonics that are missed. -/
def shortage (missed : List String) (total : Nat) : String :=
  toString missed.length ++ " of " ++ toString total ++ " mnemonics not found"

/-- What is said of each of them. -/
def complaints (missed : List String) : String :=
  String.join (missed.map fun mnemonic => "unknown mnemonic " ++ mnemonic ++ "\n")

/-- Writes what a search tells to a sink that has room for all of it. -/
def search (table : Table) (medium : Medium) (asked : List String) : Sink × Option WriteError :=
  (Find.document table asked).write medium (.empty none)

namespace Told

variable {table : Table} {asked lines missed : List String}

theorem search (told : Told table asked lines missed) (medium : Medium) :
    (search table medium asked).1.held = (String.join lines).toUTF8.data.toList ∧
      (Searches.search table medium asked).2.map WriteError.failure =
        if missed = [] then none else some ⟨shortage missed asked.length, none⟩ := by
  rw [Searches.search, BoundedSinks.write_unbounded, BoundedSinks.bytes, told.render,
    told.complaint]
  refine ⟨rfl, ?_⟩
  split <;> rfl

/-- The program tells all it finds, and fails only then. -/
theorem perform (told : Told table asked lines missed) (medium : Medium) (naming : Naming) :
    Browse.perform medium naming table (.find asked) =
      if missed = [] then ⟨0, String.join lines, ""⟩
      else ⟨1, String.join lines,
        complaints missed ++ ("Error: " ++ shortage missed asked.length ++ "\n")⟩ := by
  simp only [Browse.perform, documents, remarks, List.map_cons, List.map_nil, String.join_cons,
    String.join_nil, String.append_empty, List.findSome?_cons, List.findSome?_nil, told.render,
    told.complaint, told.unknown]
  by_cases complete : missed = []
  · subst complete
    rfl
  · simp only [if_neg complete]
    rfl

end Told

theorem run_find {asked : List String} (something : asked ≠ [])
    (undashed : ∀ mnemonic ∈ asked, Undashed mnemonic) (terminal : Bool) :
    run terminal ("find" :: asked) =
      Browse.perform (medium terminal .auto) Avc2.naming Avc2.table (.find asked) := by
  rw [run, readRequest_command (by decide), readCommand_mnemonics something undashed]
  rfl

/-- A search writes the line of every mnemonic that a byte owns, in the order asked for and as often
as it was asked for, and nothing else. It succeeds exactly if no mnemonic is missed, and otherwise
tells in the end how many are, counting repeats. What is told of two lists put together is what is
told of the one and then of the other. The program prints the same, and complains of every miss. -/
theorem search_tells_every_mnemonic (table : Table) (asked : List String) :
    ∃ lines missed, Told table asked lines missed ∧
      (∀ otherLines otherMissed, Told table asked otherLines otherMissed →
        otherLines = lines ∧ otherMissed = missed) ∧
      (missed = [] ↔ ∀ mnemonic ∈ asked, ∃ byte, table.find? mnemonic = some byte) ∧
      (∀ medium,
        (search table medium asked).1.held = (String.join lines).toUTF8.data.toList ∧
        (search table medium asked).2.map WriteError.failure =
          if missed = [] then none else some ⟨shortage missed asked.length, none⟩) ∧
      (∀ later laterLines laterMissed, Told table later laterLines laterMissed →
        Told table (asked ++ later) (lines ++ laterLines) (missed ++ laterMissed) ∧
        ∀ medium, (search table medium (asked ++ later)).1.held =
          (search table medium asked).1.held ++ (search table medium later).1.held) ∧
      (table = Avc2.table → asked ≠ [] → (∀ mnemonic ∈ asked, Undashed mnemonic) →
        ∀ terminal, run terminal ("find" :: asked) =
          if missed = [] then ⟨0, String.join lines, ""⟩
          else ⟨1, String.join lines,
            complaints missed ++ ("Error: " ++ shortage missed asked.length ++ "\n")⟩) := by
  obtain ⟨lines, missed, told⟩ := exists_told table asked
  refine ⟨lines, missed, told, fun _ _ => told.unique, told.missed_eq_nil_iff, told.search, ?_, ?_⟩
  · intro later laterLines laterMissed others
    have together := told.append others
    refine ⟨together, fun medium => ?_⟩
    rw [(together.search medium).1, (told.search medium).1, (others.search medium).1,
      String.join_append]
    simp [String.toUTF8]
  · rintro rfl something undashed terminal
    rw [run_find something undashed]
    exact told.perform _ _

/-- A mnemonic asked for twice, with another in between that no byte owns. -/
theorem search_tells_swap_twice :
    (∀ mnemonic ∈ ["SWP", "?", "SWP"], Undashed mnemonic) ∧
      run false ["find", "SWP", "?", "SWP"] =
        ⟨1, "SWP 0x04\nSWP 0x04\n",
          "unknown mnemonic ?\nError: 1 of 3 mnemonics not found\n"⟩ := by
  have swap : Avc2.table.find? "SWP" = some 0x04 :=
    (find?_eq_some_iff_spells unambiguous_avc2).mpr
      (.shuffle 4 false false (by decide) (by decide) (by decide))
  have mark : Avc2.table.find? "?" = none := by
    rw [Option.eq_none_iff_forall_ne_some]
    intro byte owned
    exact absurd (usesIdentifiers_avc2.found owned) (by decide)
  have told := Told.found swap (.missed mark (.found swap .nil))
  have undashed : ∀ mnemonic ∈ ["SWP", "?", "SWP"], Undashed mnemonic := by decide
  obtain ⟨lines, missed, _, unique, _, _, _, runs⟩ :=
    search_tells_every_mnemonic Avc2.table ["SWP", "?", "SWP"]
  obtain ⟨rfl, rfl⟩ := unique _ _ told
  refine ⟨undashed, ?_⟩
  rw [runs rfl (by decide) undashed false]
  decide

end Opcodes.Proofs.Searches
