import Opcodes.Proofs.Spelling

/-!
# What the table says of a byte

The rules, tried in order, and the removal of repeated mnemonics come down to
a direct case analysis on the family and the modes of a byte, for any naming
without ambiguity. Its only aliases are the shuffles with keep, and each
points at the same shuffle without it.
-/

namespace Opcodes.Proofs.Meaning

open Decoding Layout Ownership Spelling

/-- The instruction of a byte, and the byte of which it is an alias. -/
def meaning (naming : Naming) (code : UInt8) : Instruction × Option UInt8 :=
  match step code with
  | .literal => (.composed "LIT" ((Modes.ofByte code).without Mode.keep.mask), none)
  | .fixed name => (.atomic name, none)
  | .vacant => (.undefined, none)
  | .shuffle =>
      match naming.name? (Family.ofByte code) with
      | none => (.undefined, none)
      | some name =>
          if code &&& 0x80 = 0 then (.composed name (Modes.ofByte code), none)
          else (.undefined, some (code &&& 0x7f))
  | .general =>
      match naming.name? (Family.ofByte code) with
      | none => (.undefined, none)
      | some name => (.composed name (Modes.ofByte code), none)

variable {naming : Naming}

theorem isSome_meaning_iff (code : UInt8) :
    (meaning naming code).2.isSome = true ↔
      step code = .shuffle ∧ (naming.name? (Family.ofByte code)).isSome = true ∧
        code &&& 0x80 ≠ 0 := by
  unfold meaning
  cases step code with
  | literal | fixed | vacant => simp
  | general => cases naming.name? (Family.ofByte code) <;> simp
  | shuffle =>
      cases naming.name? (Family.ofByte code) with
      | none => simp
      | some name => by_cases unkept : code &&& 0x80 = 0 <;> simp [unkept]

theorem and_unkept_eq_self_iff (code : UInt8) : code &&& 0x7f = code ↔ code &&& 0x80 = 0 := by
  have bound := code.toNat_lt
  rw [and_keep_eq_zero_iff, ← UInt8.toNat_inj, toNat_and_unkept]
  omega

/-- What the decoder composes stays where it is at home, and becomes an alias where it is not. -/
theorem entry_eq_meaning (unambiguous : Unambiguous naming) (code : UInt8) :
    ((machine naming).table.instruction code, (machine naming).table.aliasOf? code) =
      meaning naming code := by
  have homes := isHome unambiguous
  have outcome : ((machine naming).resolve code).instruction = _ := instruction_resolve code
  have settle (settled : ((machine naming).resolve code).instruction.isComposed = true →
      home code = code) :
      ((machine naming).table.instruction code, (machine naming).table.aliasOf? code) =
        (((machine naming).resolve code).instruction, none) := by
    obtain ⟨same, kept⟩ := homes.build_of_settled settled
    exact Prod.ext same kept
  unfold meaning
  cases taken : step code with
  | literal =>
      rw [settle fun _ => home_of_ne taken Step.noConfusion, outcome, taken]
      rfl
  | fixed name =>
      rw [settle fun _ => home_of_ne taken Step.noConfusion, outcome, taken]
      rfl
  | vacant =>
      rw [settle fun _ => home_of_ne taken Step.noConfusion, outcome, taken]
      rfl
  | general =>
      rw [settle fun _ => home_of_ne taken Step.noConfusion, outcome, taken]
      cases naming.name? (Family.ofByte code) <;> rfl
  | shuffle =>
      rw [taken] at outcome
      cases found : naming.name? (Family.ofByte code) with
      | none =>
          rw [found] at outcome
          rw [settle fun composed => ?_, outcome]
          · rfl
          · rw [outcome] at composed
            cases composed
      | some name =>
          rw [found, Step.instruction, ← modes_and_unkept] at outcome
          by_cases unkept : code &&& 0x80 = 0
          · have stays := (and_unkept_eq_self_iff code).mpr unkept
            rw [settle fun _ => (home_of_shuffle taken).trans stays, outcome, stays]
            simp only [unkept, if_true]
            rfl
          · have away : home code ≠ code := by
              rw [home_of_shuffle taken, Ne, and_unkept_eq_self_iff]
              exact unkept
            obtain ⟨vanished, shadowed⟩ :=
              homes.build_of_away (by rw [outcome]; rfl) away
            rw [home_of_shuffle taken] at shadowed
            simp only [unkept, if_false]
            exact Prod.ext vanished shadowed

/-- The table refines the case analysis, whatever the families are called: every byte has the
instruction and the owner that it says, and the aliases are exactly the shuffles of named families
with keep, apart from the one that is a fixed name. -/
theorem table_refines_meaning (naming : Naming) (unambiguous : Unambiguous naming)
    (code : UInt8) :
    ((machine naming).table.instruction code, (machine naming).table.aliasOf? code) =
        meaning naming code ∧
      (((machine naming).table.aliasOf? code).isSome = true ↔
        3 ≤ (code &&& 0x1f).toNat ∧ (code &&& 0x1f).toNat ≤ 7 ∧ code ≠ 0x83 ∧
          (naming.name? (Family.ofByte code)).isSome = true ∧ code &&& 0x80 ≠ 0) := by
  have entry := entry_eq_meaning unambiguous code
  refine ⟨entry, ?_⟩
  have shadowed : (machine naming).table.aliasOf? code = (meaning naming code).2 :=
    congrArg Prod.snd entry
  rw [shadowed, isSome_meaning_iff, step_eq_shuffle_iff, toNat_and_family]
  simp only [and_assoc]

/-- A naming that gives a name to a family that stands for nothing, and none to a shuffle. -/
def shifted : Naming :=
  (Avc2.naming.set 1 "NIL").set 5 ""

theorem shifted_table_refines_meaning :
    Unambiguous shifted ∧
      (machine shifted).table.instruction 0xa4 = .undefined ∧
      (machine shifted).table.aliasOf? 0xa4 = some 0x24 ∧
      (machine shifted).table.instruction 0x01 = .undefined ∧
      (machine shifted).table.aliasOf? 0xa5 = none := by
  have unambiguous : Unambiguous shifted :=
    ⟨by decide +kernel, by decide +kernel, by decide +kernel⟩
  have shuffle := (table_refines_meaning shifted unambiguous 0xa4).1
  have vacant := (table_refines_meaning shifted unambiguous 0x01).1
  have nameless := (table_refines_meaning shifted unambiguous 0xa5).1
  rw [show meaning shifted 0xa4 = (.undefined, some 0x24) by decide, Prod.mk.injEq] at shuffle
  rw [show meaning shifted 0x01 = (.undefined, none) by decide, Prod.mk.injEq] at vacant
  rw [show meaning shifted 0xa5 = (.undefined, none) by decide, Prod.mk.injEq] at nameless
  exact ⟨unambiguous, shuffle.1, shuffle.2, vacant.1, nameless.2⟩

end Opcodes.Proofs.Meaning
