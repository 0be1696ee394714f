import Mathlib.Logic.ExistsUnique
import Opcodes.Proofs.Ownership

/-!
# Aliases and reverse look-up

What a finished table says about its bytes and mnemonics, for any decoder. An
alias points at the lowest producer of the mnemonic that it would have
composed, which is a defined byte of its own; all other bytes keep what the
decoder made of them. A look-up finds the lowest producer, and never an alias.
-/

namespace Opcodes.Proofs.Aliases

open Ownership

variable {resolve : UInt8 → Resolution}

theorem isDefined_of_mnemonic? {instruction : Instruction} {mnemonic : String}
    (named : instruction.mnemonic? = some mnemonic) : instruction.isDefined = true := by
  rw [← Instruction.isSome_mnemonic?, named]
  rfl

theorem ne_undefined_of_isComposed {instruction : Instruction}
    (composed : instruction.isComposed = true) : instruction ≠ .undefined := by
  rintro rfl
  cases composed

/-- A byte is an alias exactly if it composes what a lower byte produces. -/
theorem isSome_aliasOf?_iff {byte : UInt8} :
    ((Table.build resolve).aliasOf? byte).isSome = true ↔
      (resolve byte).instruction.isComposed = true ∧
        ∃ lower < byte, ∃ mnemonic, produced? resolve lower = some mnemonic ∧
          produced? resolve byte = some mnemonic := by
  rw [Option.isSome_iff_exists]
  simp only [aliasOf?_build_eq_some_iff]
  constructor
  · rintro ⟨owner, composed, less, mnemonic, produces, owns⟩
    exact ⟨composed, owner, less, mnemonic, owns.1, produces⟩
  · rintro ⟨composed, lower, less, mnemonic, lowerProduces, produces⟩
    obtain ⟨owner, atMost, owns⟩ := exists_isOwner lowerProduces
    exact ⟨owner, composed, UInt8.lt_of_le_of_lt atMost less, mnemonic, produces, owns⟩

/-! ## The three standings of a byte -/

/-- What becomes of a byte when a table is filled. -/
inductive Standing where
  | vacant
  | kept
  | shadowed
deriving DecidableEq, Repr

/-- A byte is left undefined by the decoder, keeps its instruction, or is an alias of a defined
lower byte. -/
def Stands (resolve : UInt8 → Resolution) (byte : UInt8) : Standing → Prop
  | .vacant => (resolve byte).instruction = .undefined
  | .kept =>
      (Table.build resolve).instruction byte = (resolve byte).instruction ∧
        ((Table.build resolve).instruction byte).isDefined = true
  | .shadowed =>
      ∃ owner < byte, (Table.build resolve).aliasOf? byte = some owner ∧
        ((Table.build resolve).instruction owner).isDefined = true

/-- An alias points at a lower byte that is none and that carries the mnemonic in question. -/
theorem owner_of_alias {byte owner : UInt8}
    (shadowed : (Table.build resolve).aliasOf? byte = some owner) :
    owner < byte ∧ (Table.build resolve).instruction owner = (resolve owner).instruction ∧
      ((Table.build resolve).instruction owner).mnemonic? = produced? resolve byte ∧
      (Table.build resolve).aliasOf? owner = none := by
  obtain ⟨_, less, mnemonic, produces, owns⟩ := aliasOf?_build_eq_some_iff.mp shadowed
  refine ⟨less, owns.instruction, ?_, owns.aliasOf?⟩
  rw [owns.instruction, produces]
  exact owns.1

theorem stands_shadowed_of_alias {byte owner : UInt8}
    (shadowed : (Table.build resolve).aliasOf? byte = some owner) :
    Stands resolve byte .shadowed := by
  obtain ⟨_, less, mnemonic, produces, _⟩ := aliasOf?_build_eq_some_iff.mp shadowed
  obtain ⟨_, _, carried, _⟩ := owner_of_alias shadowed
  rw [produces] at carried
  exact ⟨owner, less, shadowed, isDefined_of_mnemonic? carried⟩

theorem not_stands_shadowed_of_not_alias {byte : UInt8}
    (kept : (Table.build resolve).aliasOf? byte = none) : ¬ Stands resolve byte .shadowed := by
  rintro ⟨owner, _, shadowed, _⟩
  rw [kept] at shadowed
  cases shadowed

theorem existsUnique_stands (byte : UInt8) : ∃! standing, Stands resolve byte standing := by
  cases found : (Table.build resolve).aliasOf? byte with
  | some owner =>
      obtain ⟨composed, _⟩ := aliasOf?_build_eq_some_iff.mp found
      refine ⟨.shadowed, stands_shadowed_of_alias found, ?_⟩
      rintro (_ | _ | _) stands
      · exact absurd stands (ne_undefined_of_isComposed composed)
      · have vanished := stands.2
        rw [instruction_of_alias found] at vanished
        cases vanished
      · rfl
  | none =>
      have same := instruction_of_not_alias found
      by_cases vacant : (resolve byte).instruction = .undefined
      · refine ⟨.vacant, vacant, ?_⟩
        rintro (_ | _ | _) stands
        · rfl
        · have defined := stands.2
          rw [same, vacant] at defined
          cases defined
        · exact absurd stands (not_stands_shadowed_of_not_alias found)
      · have defined : ((Table.build resolve).instruction byte).isDefined = true := by
          rw [same]
          cases outcome : (resolve byte).instruction with
          | undefined => exact absurd outcome vacant
          | atomic name => rfl
          | composed base modes => rfl
        refine ⟨.kept, ⟨same, defined⟩, ?_⟩
        rintro (_ | _ | _) stands
        · exact absurd stands vacant
        · rfl
        · exact absurd stands (not_stands_shadowed_of_not_alias found)

/-- Exactly the bytes that compose a mnemonic of some lower byte become aliases. They point at the
lowest such byte, which carries the mnemonic and is no alias; all other bytes are unchanged, and
so are the byte and the rule of every resolution. -/
theorem alias_bookkeeping (resolve : UInt8 → Resolution) (byte : UInt8) :
    (∀ owner, (Table.build resolve).aliasOf? byte = some owner ↔
        (resolve byte).instruction.isComposed = true ∧ owner < byte ∧
          ∃ mnemonic, produced? resolve byte = some mnemonic ∧
            IsOwner resolve mnemonic owner) ∧
      (((Table.build resolve).aliasOf? byte).isSome = true ↔
        (resolve byte).instruction.isComposed = true ∧
          ∃ lower < byte, ∃ mnemonic, produced? resolve lower = some mnemonic ∧
            produced? resolve byte = some mnemonic) ∧
      (∀ owner, (Table.build resolve).aliasOf? byte = some owner →
        (Table.build resolve).instruction byte = .undefined ∧ owner < byte ∧
          (Table.build resolve).instruction owner = (resolve owner).instruction ∧
          ((Table.build resolve).instruction owner).mnemonic? = produced? resolve byte ∧
          (Table.build resolve).aliasOf? owner = none) ∧
      ((Table.build resolve).aliasOf? byte = none →
        (Table.build resolve).instruction byte = (resolve byte).instruction) ∧
      ((Table.build resolve).resolution byte).byte = (resolve byte).byte ∧
      ((Table.build resolve).resolution byte).rule = (resolve byte).rule ∧
      ∃! standing, Stands resolve byte standing := by
  refine ⟨fun owner => aliasOf?_build_eq_some_iff, isSome_aliasOf?_iff,
    fun owner shadowed => ⟨instruction_of_alias shadowed, owner_of_alias shadowed⟩,
    instruction_of_not_alias, byte_resolution_build byte, rule_resolution_build byte,
    existsUnique_stands byte⟩

/-! ## Reverse look-up -/

/-- The byte that carries the mnemonic of a byte: the owner for an alias, else the byte itself. -/
def holder (table : Table) (byte : UInt8) : UInt8 :=
  (table.aliasOf? byte).getD byte

theorem mnemonic?_holder {mnemonic : String} {byte : UInt8}
    (produces : produced? resolve byte = some mnemonic) :
    ((Table.build resolve).instruction (holder (Table.build resolve) byte)).mnemonic? =
      some mnemonic := by
  unfold holder
  cases found : (Table.build resolve).aliasOf? byte with
  | none =>
      rw [Option.getD_none, instruction_of_not_alias found]
      exact produces
  | some owner =>
      rw [Option.getD_some, (owner_of_alias found).2.2.1]
      exact produces

/-- A composing byte has its mnemonic found at its holder. -/
theorem find?_holder {mnemonic : String} {byte : UInt8}
    (produces : produced? resolve byte = some mnemonic)
    (composed : (resolve byte).instruction.isComposed = true) :
    (Table.build resolve).find? mnemonic = some (holder (Table.build resolve) byte) := by
  rw [find?_build_eq_some_iff, holder]
  cases found : (Table.build resolve).aliasOf? byte with
  | none =>
      refine ⟨produces, ?_⟩
      intro lower less lowerProduces
      have shadowed := isSome_aliasOf?_iff.mpr
        ⟨composed, lower, less, mnemonic, lowerProduces, produces⟩
      rw [found] at shadowed
      cases shadowed
  | some owner =>
      obtain ⟨_, _, shared, same, owns⟩ := aliasOf?_build_eq_some_iff.mp found
      cases produces.symm.trans same
      exact owns

/-- A mnemonic is found at the lowest byte that produces it, which carries it in the finished table
and is no alias. Every producer has a holder that carries the mnemonic, and if the producer
composes it, that is where it is found. -/
theorem lookup_finds_lowest_producer (resolve : UInt8 → Resolution) (mnemonic : String) :
    (∀ byte, (Table.build resolve).find? mnemonic = some byte ↔ IsOwner resolve mnemonic byte) ∧
      ((Table.build resolve).find? mnemonic = none ↔
        ∀ byte, produced? resolve byte ≠ some mnemonic) ∧
      (∀ byte, (Table.build resolve).find? mnemonic = some byte →
        ((Table.build resolve).instruction byte).mnemonic? = some mnemonic ∧
          (Table.build resolve).aliasOf? byte = none) ∧
      (∀ byte, produced? resolve byte = some mnemonic →
        ((Table.build resolve).instruction (holder (Table.build resolve) byte)).mnemonic? =
            some mnemonic ∧
          ((resolve byte).instruction.isComposed = true →
            (Table.build resolve).find? mnemonic =
              some (holder (Table.build resolve) byte))) := by
  refine ⟨fun byte => find?_build_eq_some_iff, find?_build_eq_none_iff, ?_,
    fun byte produces => ⟨mnemonic?_holder produces, find?_holder produces⟩⟩
  intro byte found
  have owns := find?_build_eq_some_iff.mp found
  refine ⟨?_, owns.aliasOf?⟩
  rw [owns.instruction]
  exact owns.1

end Opcodes.Proofs.Aliases
