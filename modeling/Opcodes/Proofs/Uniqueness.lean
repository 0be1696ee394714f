import Mathlib.Data.List.Nodup
import Opcodes.Proofs.Aliases
import Opcodes.Proofs.Spelling

/-!
# Unique mnemonics

In a finished table a mnemonic is repeated by fixed mnemonics only, whatever the
decoder does. So the defined bytes and their mnemonics determine each other
exactly if no fixed mnemonic repeats one that a lower byte produces, and then
the reverse look-up inverts the table.
-/

namespace Opcodes.Proofs.Uniqueness

open Aliases Ownership Spelling

/-- No byte is given a fixed mnemonic that a lower byte produces. -/
def FreshlyFixed (resolve : UInt8 → Resolution) : Prop :=
  ∀ byte name, (resolve byte).instruction = .atomic name →
    ∀ lower < byte, produced? resolve lower ≠ some name

variable {resolve : UInt8 → Resolution}

/-! ## Repeated mnemonics -/

/-- A mnemonic that a lower byte produces is left to a byte only as a fixed one. -/
theorem atomic_of_produced {lower byte : UInt8} {mnemonic : String} (less : lower < byte)
    (lowerProduces : produced? resolve lower = some mnemonic)
    (named : ((Table.build resolve).instruction byte).mnemonic? = some mnemonic) :
    (resolve byte).instruction = .atomic mnemonic := by
  obtain ⟨kept, produces⟩ := of_mnemonic? named
  cases outcome : (resolve byte).instruction with
  | undefined =>
      rw [produced?, outcome] at produces
      cases produces
  | atomic name =>
      rw [produced?, outcome] at produces
      cases produces
      rfl
  | composed base modes =>
      -- A composing byte would have become an alias.
      have composed : (resolve byte).instruction.isComposed = true := by
        rw [outcome]
        rfl
      have shadowed : ((Table.build resolve).aliasOf? byte).isSome = true :=
        isSome_aliasOf?_iff.mpr ⟨composed, lower, less, mnemonic, lowerProduces, produces⟩
      rw [kept] at shadowed
      cases shadowed

/-- Of two bytes with one mnemonic, the higher has it as a fixed one. -/
theorem atomic_of_repeated {first second : UInt8} {mnemonic : String} (less : first < second)
    (one : ((Table.build resolve).instruction first).mnemonic? = some mnemonic)
    (other : ((Table.build resolve).instruction second).mnemonic? = some mnemonic) :
    (Table.build resolve).instruction second = .atomic mnemonic := by
  rw [instruction_of_not_alias (of_mnemonic? other).1]
  exact atomic_of_produced less (of_mnemonic? one).2 other

/-! ## Mnemonics that are not repeated -/

/-- Where fixed mnemonics are fresh, a byte with a mnemonic in the end owns it. -/
theorem FreshlyFixed.isOwner (fresh : FreshlyFixed resolve) {byte : UInt8} {mnemonic : String}
    (named : ((Table.build resolve).instruction byte).mnemonic? = some mnemonic) :
    IsOwner resolve mnemonic byte := by
  refine ⟨(of_mnemonic? named).2, fun lower less lowerProduces => ?_⟩
  have fixed := atomic_of_produced less lowerProduces named
  exact fresh byte mnemonic fixed lower less lowerProduces

/-- The reverse look-up inverts the table where fixed mnemonics are fresh. -/
theorem FreshlyFixed.mnemonic?_eq_some_iff (fresh : FreshlyFixed resolve) {byte : UInt8}
    {mnemonic : String} :
    ((Table.build resolve).instruction byte).mnemonic? = some mnemonic ↔
      (Table.build resolve).find? mnemonic = some byte := by
  rw [find?_build_eq_some_iff]
  constructor
  · exact fresh.isOwner
  · intro owns
    rw [owns.instruction]
    exact owns.1

theorem aliasOf?_of_atomic {byte : UInt8} {name : String}
    (fixed : (resolve byte).instruction = .atomic name) :
    (Table.build resolve).aliasOf? byte = none := by
  rw [Option.eq_none_iff_forall_ne_some]
  intro owner shadowed
  have composed := (aliasOf?_build_eq_some_iff.mp shadowed).1
  rw [fixed] at composed
  cases composed

/-- Fixed mnemonics are fresh exactly if no mnemonic belongs to two bytes in the end. -/
theorem freshlyFixed_iff :
    FreshlyFixed resolve ↔ ∀ first second mnemonic,
      ((Table.build resolve).instruction first).mnemonic? = some mnemonic →
      ((Table.build resolve).instruction second).mnemonic? = some mnemonic → first = second := by
  constructor
  · intro fresh first second mnemonic one other
    have found := fresh.mnemonic?_eq_some_iff.mp one
    rw [fresh.mnemonic?_eq_some_iff.mp other] at found
    exact (Option.some.inj found).symm
  · intro unique byte name fixed lower less produces
    obtain ⟨owner, atMost, owns⟩ := exists_isOwner produces
    have carried : ((Table.build resolve).instruction byte).mnemonic? = some name := by
      rw [instruction_of_not_alias (aliasOf?_of_atomic fixed), fixed]
      rfl
    have owned : ((Table.build resolve).instruction owner).mnemonic? = some name := by
      rw [owns.instruction]
      exact owns.1
    have same := unique owner byte name owned carried
    exact UInt8.ne_of_lt (UInt8.lt_of_le_of_lt atMost less) same

/-- The listed mnemonics differ exactly if none belongs to two bytes. -/
theorem nodup_defined_iff {table : Table} (ordered : InOrder table) :
    (table.defined.map Prod.snd).Nodup ↔ ∀ first second mnemonic,
      (table.instruction first).mnemonic? = some mnemonic →
      (table.instruction second).mnemonic? = some mnemonic → first = second := by
  constructor
  · intro nodup first second mnemonic one other
    have same := List.inj_on_of_nodup_map nodup (ordered.mem_defined_iff.mpr one)
      (ordered.mem_defined_iff.mpr other) rfl
    exact congrArg Prod.fst same
  · intro unique
    have ascending := List.pairwise_map.mp ordered.pairwise_defined
    refine List.pairwise_map.mpr (ascending.imp_of_mem fun {first second} one other less same => ?_)
    have bytes := unique first.1 second.1 first.2 (ordered.mem_defined_iff.mp one)
      (by rw [same]; exact ordered.mem_defined_iff.mp other)
    exact UInt8.ne_of_lt less bytes

/-- Only a fixed mnemonic repeats one of a lower byte. Bytes are listed in ascending order, and
their mnemonics all differ exactly if fixed mnemonics are fresh; then defined bytes and mnemonics
that are found determine each other. -/
theorem mnemonics_stay_unique (resolve : UInt8 → Resolution)
    (carries : ∀ byte, (resolve byte).byte = byte) :
    (∀ first second mnemonic, first < second →
      ((Table.build resolve).instruction first).mnemonic? = some mnemonic →
      ((Table.build resolve).instruction second).mnemonic? = some mnemonic →
        (Table.build resolve).instruction second = .atomic mnemonic) ∧
    (∀ byte mnemonic, (byte, mnemonic) ∈ (Table.build resolve).defined ↔
      ((Table.build resolve).instruction byte).mnemonic? = some mnemonic) ∧
    (((Table.build resolve).defined.map Prod.fst).Pairwise fun first second => first < second) ∧
    (((Table.build resolve).defined.map Prod.snd).Nodup ↔ FreshlyFixed resolve) ∧
    (FreshlyFixed resolve → ∀ byte mnemonic,
      ((Table.build resolve).instruction byte).mnemonic? = some mnemonic ↔
        (Table.build resolve).find? mnemonic = some byte) := by
  have ordered := inOrder_build carries
  refine ⟨fun first second mnemonic => atomic_of_repeated,
    fun byte mnemonic => ordered.mem_defined_iff, ordered.pairwise_defined, ?_,
    fun fresh byte mnemonic => fresh.mnemonic?_eq_some_iff⟩
  rw [nodup_defined_iff ordered, freshlyFixed_iff]

theorem freshlyFixed_avc2 : FreshlyFixed Avc2.instructionSet.resolve := by
  refine freshlyFixed_iff.mpr fun first second mnemonic one other => ?_
  have found := (find?_eq_some_iff_mnemonic? unambiguous_avc2).mpr one
  have foundToo := (find?_eq_some_iff_mnemonic? unambiguous_avc2).mpr other
  exact Option.some.inj (found.symm.trans foundToo)

/-- A decoder that fixes a mnemonic which it has composed before. -/
def repeating (byte : UInt8) : Resolution where
  byte := byte
  instruction :=
    if byte = 0x03 then .composed "POP" (FlagSet.empty Mode.flags)
    else if byte = 0x83 then .atomic "POP"
    else .undefined
  rule := none

/-- The one decoder has a mnemonic repeated, the other has none. -/
theorem repeating_and_avc2_mnemonics_stay_unique :
    ((Table.build repeating).instruction 0x03).mnemonic? = some "POP" ∧
      (Table.build repeating).instruction 0x83 = .atomic "POP" ∧
      ¬ ((Table.build repeating).defined.map Prod.snd).Nodup ∧
      (Avc2.table.defined.map Prod.snd).Nodup ∧
      Avc2.table.find? "SWP" = some 0x04 := by
  obtain ⟨above, _, _, repeats, _⟩ := mnemonics_stay_unique repeating fun _ => rfl
  obtain ⟨_, _, _, distinct, inverse⟩ :=
    mnemonics_stay_unique Avc2.instructionSet.resolve fun _ => rfl
  have composed : ((Table.build repeating).instruction 0x03).mnemonic? = some "POP" := by
    decide +kernel
  have fixed : ((Table.build repeating).instruction 0x83).mnemonic? = some "POP" := by
    decide +kernel
  have named : (Avc2.table.instruction 0x04).mnemonic? = some "SWP" := by
    decide +kernel
  have stale : ¬ FreshlyFixed repeating := fun fresh => fresh 0x83 "POP" rfl 0x03 (by decide) rfl
  exact ⟨composed, above 0x03 0x83 "POP" (by decide) composed fixed, mt repeats.mp stale,
    distinct.mpr freshlyFixed_avc2, (inverse freshlyFixed_avc2 0x04 "SWP").mp named⟩

end Opcodes.Proofs.Uniqueness
