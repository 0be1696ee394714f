import Opcodes.Avc2
import Opcodes.Proofs.Lexemes
import Opcodes.Proofs.Ownership

/-!
# Identifiers

Mnemonics that can stand as names in a program text: letters and digits, with
a letter in front. The mnemonics of an instruction set are such names if its
families and rules are named by them, since modes only add letters and digits.
-/

namespace Opcodes.Proofs.Identifiers

open Lexemes Ownership

/-- A name is made of letters and digits and starts with a letter. -/
def IsIdentifier (name : String) : Prop :=
  name.toList.head?.any Char.isAlpha = true ∧ name.toList.all Char.isAlphanum = true

instance {name : String} : Decidable (IsIdentifier name) :=
  inferInstanceAs (Decidable (_ ∧ _))

theorem IsIdentifier.ne_nil {name : String} (identifier : IsIdentifier name) :
    name.toList ≠ [] := by
  intro empty
  have letter := identifier.1
  rw [empty] at letter
  cases letter

theorem IsIdentifier.isAlphanum {name : String} (identifier : IsIdentifier name) :
    ∀ character ∈ name.toList, character.isAlphanum = true :=
  List.all_eq_true.mp identifier.2

theorem IsIdentifier.not_mem {name : String} (identifier : IsIdentifier name) {character : Char}
    (other : character.isAlphanum = false) : character ∉ name.toList := by
  intro member
  rw [identifier.isAlphanum character member] at other
  cases other

theorem IsIdentifier.isWordCharacter {name : String} (identifier : IsIdentifier name) :
    ∀ character ∈ name.toList, isWordCharacter character = true := by
  intro character member
  simp [Lexemes.isWordCharacter, identifier.isAlphanum character member]

theorem IsIdentifier.append {name : String} (identifier : IsIdentifier name) {suffix : String}
    (plain : ∀ character ∈ suffix.toList, character.isAlphanum = true) :
    IsIdentifier (name ++ suffix) := by
  have letters := identifier.isAlphanum
  have opens := identifier.1
  unfold IsIdentifier
  rw [String.toList_append]
  constructor
  · cases shape : name.toList with
    | nil =>
        rw [shape] at opens
        cases opens
    | cons first rest =>
        rw [shape] at opens
        exact opens
  · rw [List.all_eq_true]
    intro character member
    rcases List.mem_append.mp member with inside | behind
    · exact letters character inside
    · exact plain character behind

/-! ## Names of an instruction set -/

theorem isAlphanum_suffix (modes : Modes) :
    ∀ character ∈ modes.suffix.toList, character.isAlphanum = true := by
  have letters : ∀ entry ∈ Mode.letters, entry.2.isAlphanum = true := by
    decide
  intro character member
  rw [Modes.suffix, String.toList_ofList] at member
  obtain ⟨entry, chosen, rfl⟩ := List.mem_map.mp member
  exact letters entry (List.mem_filter.mp chosen).1

theorem isIdentifier_compose {base : Option String}
    (identifiers : ∀ name ∈ base, IsIdentifier name) (modes : Modes) :
    ∀ name ∈ (InstructionSet.compose base modes).mnemonic?, IsIdentifier name := by
  cases base with
  | none =>
      intro name member
      cases member
  | some spelling =>
      intro name member
      cases member
      exact (identifiers spelling rfl).append (isAlphanum_suffix modes)

/-- The name that an outcome brings with it. -/
def ownName? : Outcome → Option String
  | .undefined => none
  | .atomic name => some name
  | .compose base _ => base

/-- The families and the rules of an instruction set are named by identifiers. -/
structure UsesIdentifiers (set : InstructionSet) : Prop where
  families : ∀ index, ∀ name ∈ set.naming.name? ⟨index⟩, IsIdentifier name
  rules : ∀ rule ∈ set.rules, ∀ name ∈ ownName? rule.outcome, IsIdentifier name

theorem UsesIdentifiers.produced {set : InstructionSet} (uses : UsesIdentifiers set)
    (byte : UInt8) : ∀ name ∈ produced? set.resolve byte, IsIdentifier name := by
  have family := uses.families (Family.ofByte byte).index
  unfold produced? InstructionSet.resolve InstructionSet.instruction
  cases governed : set.governing? byte with
  | none => exact isIdentifier_compose family _
  | some rule =>
      have own := uses.rules rule (List.mem_of_find?_eq_some governed)
      cases outcome : rule.outcome with
      | undefined =>
          intro name member
          simp [outcome, Instruction.mnemonic?] at member
      | atomic name =>
          rw [outcome] at own
          simpa [outcome, Instruction.mnemonic?, ownName?] using own
      | compose base absorb =>
          rw [outcome] at own
          simp only [outcome]
          cases base with
          | none => exact isIdentifier_compose family _
          | some name => exact isIdentifier_compose own _

/-- Names that are identifiers make for mnemonics that are. -/
theorem UsesIdentifiers.defined {set : InstructionSet} (uses : UsesIdentifiers set) :
    ∀ entry ∈ set.table.defined, IsIdentifier entry.2 := by
  intro entry member
  obtain ⟨byte, produces⟩ := exists_mem_defined_build_iff.mp ⟨entry, member, rfl⟩
  exact uses.produced byte entry.2 produces

theorem UsesIdentifiers.found {set : InstructionSet} (uses : UsesIdentifiers set)
    {mnemonic : String} {byte : UInt8} (owns : set.table.find? mnemonic = some byte) :
    IsIdentifier mnemonic :=
  uses.produced byte mnemonic (find?_build_eq_some_iff.mp owns).1

theorem usesIdentifiers_avc2 : UsesIdentifiers Avc2.instructionSet where
  families := by
    decide +kernel
  rules := by
    decide +kernel

end Opcodes.Proofs.Identifiers
