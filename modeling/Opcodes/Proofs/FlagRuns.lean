import Opcodes.Flag

/-!
# Runs over flag sets

The bits of a flag set do not touch each other: whatever is done to the set, a
declared bit goes its own way, and a bit that no flag declares stays clear. So
a set is known from what it says about its flags, for any declaration.
-/

namespace Opcodes.Proofs.FlagRuns

/-! ## Bits of a byte -/

def bit (byte : UInt8) (place : Fin 8) : Bool :=
  byte.toBitVec.getLsbD place

theorem bit_and (first second : UInt8) (place : Fin 8) :
    bit (first &&& second) place = (bit first place && bit second place) := by
  simp [bit]

theorem bit_or (first second : UInt8) (place : Fin 8) :
    bit (first ||| second) place = (bit first place || bit second place) := by
  simp [bit]

theorem bit_not (byte : UInt8) (place : Fin 8) : bit (~~~byte) place = !bit byte place := by
  simp [bit]

theorem bit_zero (place : Fin 8) : bit 0 place = false := by
  simp [bit]

theorem ext_bit {first second : UInt8} (same : ∀ place, bit first place = bit second place) :
    first = second :=
  UInt8.toBitVec_inj.mp (BitVec.eq_of_getLsbD_eq fun place inside => same ⟨place, inside⟩)

theorem bit_mask (flag : Flag) (place : Fin 8) :
    bit flag.mask place = (flag.position == place) := by
  have one : (1 : UInt8).toBitVec = BitVec.twoPow 8 0 := rfl
  rw [bit, Flag.mask, UInt8.toBitVec_shiftLeft, BitVec.getLsbD_shiftLeft', Bool.eq_iff_iff, one]
  simp [BitVec.getLsbD_twoPow, Fin.ext_iff]
  omega

/-- Some flag of the declaration stands in a place. -/
def declares (flags : List Flag) (place : Fin 8) : Bool :=
  flags.any fun flag => flag.position == place

theorem declares_iff {flags : List Flag} {place : Fin 8} :
    declares flags place = true ↔ ∃ flag ∈ flags, flag.position = place := by
  simp [declares]

theorem bit_union (flags : List Flag) (place : Fin 8) :
    bit (Flag.union flags) place = declares flags place := by
  induction flags with
  | nil => exact bit_zero place
  | cons flag rest ih =>
      rw [Flag.union_cons, bit_or, bit_mask, ih, declares, declares, List.any_cons]

/-- Of a byte, the mask of a flag leaves that flag's bit. -/
theorem mask_and (flag : Flag) (byte : UInt8) :
    flag.mask &&& byte = if bit byte flag.position then flag.mask else 0 := by
  refine ext_bit fun place => ?_
  rw [bit_and, bit_mask]
  by_cases same : flag.position = place
  · cases stored : bit byte flag.position <;> simp [← same, stored, bit_mask, bit_zero]
  · cases bit byte flag.position <;> simp [same, bit_mask, bit_zero]

theorem mask_ne_zero (flag : Flag) : flag.mask ≠ 0 := by
  intro clear
  have own := congrArg (fun byte => bit byte flag.position) clear
  simp [bit_mask, bit_zero] at own

/-- The bit of a flag is in a mask exactly if all bits of the flag are. -/
theorem mask_and_eq_iff (flag : Flag) (mask : UInt8) :
    flag.mask &&& mask = flag.mask ↔ bit mask flag.position = true := by
  rw [mask_and]
  cases bit mask flag.position with
  | true => simp
  | false => simpa using (mask_ne_zero flag).symm

/-! ## Sets and their flags -/

section

variable {flags : List Flag}

theorem has_eq_bit (set : FlagSet flags) (flag : Flag) :
    set.has flag = bit set.bits flag.position := by
  rw [FlagSet.has, mask_and]
  cases bit set.bits flag.position with
  | true => simpa using mask_ne_zero flag
  | false => simp

/-- A bit of a set belongs to a declared flag. -/
theorem declares_of_bit (set : FlagSet flags) {place : Fin 8}
    (stored : bit set.bits place = true) : declares flags place = true := by
  rw [← set.within, bit_and, bit_union, Bool.and_eq_true] at stored
  exact stored.2

theorem eq_of_has {first second : FlagSet flags}
    (agree : ∀ flag ∈ flags, first.has flag = second.has flag) : first = second := by
  refine FlagSet.ext (ext_bit fun place => ?_)
  cases declared : declares flags place with
  | true =>
      obtain ⟨flag, member, rfl⟩ := declares_iff.mp declared
      rw [← has_eq_bit, ← has_eq_bit, agree flag member]
  | false =>
      have clear (set : FlagSet flags) : bit set.bits place = false :=
        Bool.eq_false_iff.mpr fun stored => by simp [declares_of_bit set stored] at declared
      rw [clear, clear]

theorem isEmpty_iff (set : FlagSet flags) :
    set.isEmpty = true ↔ ∀ flag ∈ flags, set.has flag = false := by
  have none_set (flag : Flag) : (FlagSet.empty flags).has flag = false := by
    rw [has_eq_bit, FlagSet.bits_empty, bit_zero]
  rw [FlagSet.isEmpty, beq_iff_eq]
  constructor
  · intro clear flag _
    rw [show set = .empty flags from FlagSet.ext clear, none_set]
  · intro unset
    have same : set = .empty flags :=
      eq_of_has fun flag member => by rw [unset flag member, none_set]
    rw [same, FlagSet.bits_empty]

theorem has_without (set : FlagSet flags) (mask : UInt8) (flag : Flag) :
    (set.without mask).has flag =
      if flag.mask &&& mask = flag.mask then false else set.has flag := by
  rw [has_eq_bit, FlagSet.bits_without, bit_and, bit_not, ← has_eq_bit]
  simp only [mask_and_eq_iff]
  cases bit mask flag.position <;> simp

theorem without_without (set : FlagSet flags) (first second : UInt8) :
    (set.without first).without second = set.without (first ||| second) := by
  refine FlagSet.ext (ext_bit fun place => ?_)
  simp only [FlagSet.bits_without, bit_and, bit_not, bit_or, Bool.not_or, Bool.and_assoc]

theorem ofBits_without (byte mask : UInt8) :
    (FlagSet.ofBits flags byte).without mask = .ofBits flags (byte &&& ~~~mask) := by
  refine FlagSet.ext ?_
  rw [FlagSet.bits_without, FlagSet.bits_ofBits, FlagSet.bits_ofBits, UInt8.and_assoc,
    UInt8.and_comm (Flag.union flags), UInt8.and_assoc]

end

/-! ## Runs -/

/-- What can be done to a flag set. -/
inductive Step where
  | ofBits (byte : UInt8)
  | without (mask : UInt8)
  | empty
deriving DecidableEq, Repr

namespace Step

def perform {flags : List Flag} (set : FlagSet flags) : Step → FlagSet flags
  | ofBits byte => .ofBits flags byte
  | without mask => set.without mask
  | empty => .empty flags

/-- What a step makes of a single bit, wherever it stands in its own place. -/
def leave (place : Fin 8) (stored : Bool) : Step → Bool
  | ofBits byte => bit byte place
  | without mask => stored && !bit mask place
  | empty => false

end Step

/-- The set after all steps, the first of which finds no flag set. -/
def run (flags : List Flag) (steps : List Step) : FlagSet flags :=
  steps.foldl Step.perform (.empty flags)

/-- What the steps make of a single bit, taken by itself. -/
def history (place : Fin 8) (steps : List Step) : Bool :=
  steps.foldl (Step.leave place) false

section

variable {flags : List Flag} {place : Fin 8}

/-- A step changes each declared bit by itself and leaves the others clear. -/
theorem bit_perform {set : FlagSet flags} {stored : Bool}
    (before : bit set.bits place = (declares flags place && stored)) (step : Step) :
    bit (step.perform set).bits place = (declares flags place && step.leave place stored) := by
  cases step with
  | ofBits byte =>
      rw [Step.perform, FlagSet.bits_ofBits, bit_and, bit_union, Bool.and_comm, Step.leave]
  | without mask =>
      rw [Step.perform, FlagSet.bits_without, bit_and, bit_not, before, Bool.and_assoc, Step.leave]
  | empty => rw [Step.perform, FlagSet.bits_empty, bit_zero, Step.leave, Bool.and_false]

theorem bit_foldl {set : FlagSet flags} {stored : Bool}
    (before : bit set.bits place = (declares flags place && stored)) (steps : List Step) :
    bit (steps.foldl Step.perform set).bits place =
      (declares flags place && steps.foldl (Step.leave place) stored) := by
  induction steps generalizing set stored with
  | nil => exact before
  | cons step rest ih => exact ih (bit_perform before step)

theorem bit_run (steps : List Step) :
    bit (run flags steps).bits place = (declares flags place && history place steps) := by
  refine bit_foldl ?_ steps
  rw [FlagSet.bits_empty, bit_zero, Bool.and_false]

end

/-- Under any declaration, the bits that a run stores are those of declared flags that their own
history has left set. For every set, the flags tell whether it is empty and which set it is, it is
made again from its bits, and clearing touches the flags of the mask alone, in any order. -/
theorem flags_stay_independent (flags : List Flag) :
    (∀ steps place, bit (run flags steps).bits place = true ↔
        (∃ flag ∈ flags, flag.position = place) ∧ history place steps = true) ∧
      (∀ set : FlagSet flags,
        (∀ place, bit set.bits place = true → ∃ flag ∈ flags, flag.position = place) ∧
        (∀ flag, set.has flag = bit set.bits flag.position) ∧
        (set.isEmpty = true ↔ ∀ flag ∈ flags, set.has flag = false) ∧
        (∀ other, set = other ↔ ∀ flag ∈ flags, set.has flag = other.has flag) ∧
        FlagSet.ofBits flags set.bits = set ∧
        (∀ mask flag, (set.without mask).has flag =
          if flag.mask &&& mask = flag.mask then false else set.has flag) ∧
        ∀ first second,
          (set.without first).without second = (set.without second).without first ∧
          (set.without first).without second = set.without (first ||| second)) ∧
      ∀ byte mask,
        (FlagSet.ofBits flags byte).without mask = .ofBits flags (byte &&& ~~~mask) := by
  refine ⟨fun steps place => ?_, fun set => ⟨fun place stored => ?_, has_eq_bit set,
    isEmpty_iff set, fun other => ?_, FlagSet.ofBits_bits set, has_without set,
    fun first second => ⟨?_, without_without set first second⟩⟩, ofBits_without⟩
  · rw [bit_run, Bool.and_eq_true, declares_iff]
  · exact declares_iff.mp (declares_of_bit set stored)
  · exact ⟨fun same _ _ => same ▸ rfl, eq_of_has⟩
  · rw [without_without, without_without, UInt8.or_comm]

end Opcodes.Proofs.FlagRuns
