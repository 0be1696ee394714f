import Opcodes.Avc2
import Opcodes.Proofs.Layout
import Opcodes.Proofs.Ownership

/-!
# The steps of the decoder

The ordered, overlapping rules of the machine come down to five steps, of
which one settles each byte. This does not depend on how the families are
named.
-/

namespace Opcodes.Proofs.Decoding

open Layout Ownership

/-- The instruction set of the machine with other names for its families. -/
def machine (naming : Naming) : InstructionSet :=
  ⟨naming, Avc2.rules⟩

/-- How a byte is settled: as a fixed name, as nothing, or in one of three ways of composing. -/
inductive Step where
  | literal
  | fixed (name : String)
  | vacant
  | shuffle
  | general
deriving DecidableEq, Repr

/-- The step that settles a byte. -/
def step (byte : UInt8) : Step :=
  let family := (byte &&& 0x1f).toNat
  if family = 0 then
    if byte &&& 0x80 ≠ 0 then .literal
    else if byte = 0x20 then .fixed "SEC"
    else if byte = 0x40 then .fixed "CLC"
    else if byte = 0x60 then .fixed "EXT"
    else .vacant
  else if family ≤ 2 then .vacant
  else if byte = 0x83 then .fixed "RTI"
  else if family ≤ 7 then .shuffle
  else .general

/-- The bytes that stand for a fixed name. -/
def fixedNames : List (UInt8 × String) :=
  [(0x20, "SEC"), (0x40, "CLC"), (0x60, "EXT"), (0x83, "RTI")]

namespace Step

/-- The outcome of the rule by which the step is taken; the general one is taken without a rule. -/
def outcome? : Step → Option Outcome
  | literal => some (.compose (some "LIT") Mode.keep.mask)
  | fixed name => some (.atomic name)
  | vacant => some .undefined
  | shuffle => some (.compose none Mode.keep.mask)
  | general => none

/-- What the step makes of a byte whose family may have a name. -/
def instruction (name? : Option String) (byte : UInt8) : Step → Instruction
  | literal => .composed "LIT" ((Modes.ofByte byte).without Mode.keep.mask)
  | fixed name => .atomic name
  | vacant => .undefined
  | shuffle => InstructionSet.compose name? ((Modes.ofByte byte).without Mode.keep.mask)
  | general => InstructionSet.compose name? (Modes.ofByte byte)

/-- What is known of a byte that the step settles. -/
def Fits (byte : UInt8) : Step → Prop
  | literal => byte.toNat % 32 = 0 ∧ 128 ≤ byte.toNat
  | fixed name => (byte, name) ∈ fixedNames
  | vacant => True
  | shuffle => 3 ≤ byte.toNat % 32 ∧ byte.toNat % 32 ≤ 7 ∧ byte ≠ 0x83
  | general => 8 ≤ byte.toNat % 32

end Step

/-! ## Which step settles a byte -/

theorem step_fits (byte : UInt8) : (step byte).Fits byte := by
  have family := toNat_and_family byte
  have kept := and_keep_eq_zero_iff byte
  simp only [step]
  split
  · split
    · next set => exact ⟨by omega, Nat.not_lt.mp (mt kept.mpr set)⟩
    · split
      · next code => simp [Step.Fits, fixedNames, code]
      · split
        · next code => simp [Step.Fits, fixedNames, code]
        · split
          · next code => simp [Step.Fits, fixedNames, code]
          · trivial
  · split
    · trivial
    · split
      · next code => simp [Step.Fits, fixedNames, code]
      · next other =>
          split
          · exact ⟨by omega, by omega, other⟩
          · show 8 ≤ byte.toNat % 32
            omega

theorem step_of_mem {byte : UInt8} {name : String} (known : (byte, name) ∈ fixedNames) :
    step byte = .fixed name := by
  have all : ∀ entry ∈ fixedNames, step entry.1 = .fixed entry.2 := by
    decide
  exact all _ known

theorem step_of_literal {byte : UInt8} (family : byte.toNat % 32 = 0) (kept : 128 ≤ byte.toNat) :
    step byte = .literal := by
  have zero := toNat_and_family byte
  have set : byte &&& 0x80 ≠ 0 := by
    rw [Ne, and_keep_eq_zero_iff]
    omega
  simp only [step]
  rw [if_pos (by omega), if_pos set]

theorem step_of_shuffle {byte : UInt8} (first : 3 ≤ byte.toNat % 32)
    (last : byte.toNat % 32 ≤ 7) (other : byte ≠ 0x83) : step byte = .shuffle := by
  have family := toNat_and_family byte
  simp only [step]
  rw [if_neg (by omega), if_neg (by omega), if_neg other, if_pos (by omega)]

theorem step_eq_shuffle_iff {byte : UInt8} :
    step byte = .shuffle ↔ 3 ≤ byte.toNat % 32 ∧ byte.toNat % 32 ≤ 7 ∧ byte ≠ 0x83 := by
  constructor
  · intro taken
    have fits := step_fits byte
    rwa [taken] at fits
  · rintro ⟨first, last, other⟩
    exact step_of_shuffle first last other

theorem step_of_general {byte : UInt8} (first : 8 ≤ byte.toNat % 32) : step byte = .general := by
  have family := toNat_and_family byte
  have other : byte ≠ 0x83 := by
    rintro rfl
    contradiction
  simp only [step]
  rw [if_neg (by omega), if_neg (by omega), if_neg other, if_neg (by omega)]

/-! ## What the rules make of a byte -/

variable {naming : Naming}

theorem outcome_governing? (byte : UInt8) :
    ((machine naming).governing? byte).map Rule.outcome = (step byte).outcome? := by
  have agree : ∀ byte ∈ Byte.all,
      (Avc2.rules.find? fun rule => rule.pattern.accepts byte).map Rule.outcome =
        (step byte).outcome? := by
    decide +kernel
  exact agree byte (Byte.mem_all byte)

/-- Whatever rule governs a byte, only its outcome counts. -/
theorem instruction_eq_of_outcome {set : InstructionSet} {byte : UInt8} {rule? : Option Rule}
    {taken : Step} (same : rule?.map Rule.outcome = taken.outcome?) :
    set.instruction byte rule? =
      taken.instruction (set.naming.name? (Family.ofByte byte)) byte := by
  cases rule? with
  | none =>
      cases taken with
      | general => rfl
      | literal | fixed | vacant | shuffle => cases same
  | some rule =>
      unfold InstructionSet.instruction
      cases taken with
      | general => cases same
      | literal | fixed | vacant | shuffle =>
          simp only [Option.some.inj same]
          rfl

/-- The first rule that accepts a byte takes the step that settles it. -/
theorem instruction_resolve (byte : UInt8) :
    ((machine naming).resolve byte).instruction =
      (step byte).instruction (naming.name? (Family.ofByte byte)) byte :=
  instruction_eq_of_outcome (outcome_governing? byte)

end Opcodes.Proofs.Decoding
