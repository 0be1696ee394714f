import Mathlib.Data.List.DropRight
import Mathlib.Data.Nat.Bitwise
import Opcodes.Family
import Opcodes.Instruction

/-!
# The layout of bytes and mnemonics

An opcode byte is a family with a choice of the three modes, and a composed
mnemonic is a base with the letters of such a choice. Both can be taken apart
in one way only; for a mnemonic this holds among the bases that do not end in
one of the letters themselves.
-/

namespace Opcodes.Proofs.Layout

/-! ## Bytes -/

theorem toNat_and_family (byte : UInt8) : (byte &&& 0x1f).toNat = byte.toNat % 32 := by
  rw [UInt8.toNat_and]
  exact Nat.and_two_pow_sub_one_eq_mod byte.toNat 5

theorem toNat_and_unkept (byte : UInt8) : (byte &&& 0x7f).toNat = byte.toNat % 128 := by
  rw [UInt8.toNat_and]
  exact Nat.and_two_pow_sub_one_eq_mod byte.toNat 7

theorem and_keep_eq_zero_iff (byte : UInt8) : byte &&& 0x80 = 0 ↔ byte.toNat < 128 := by
  have bound := byte.toNat_lt
  have bit : (byte &&& 0x80).toNat = (byte.toNat.testBit 7).toNat * 128 := by
    rw [UInt8.toNat_and]
    exact Nat.and_two_pow byte.toNat 7
  rw [← UInt8.toNat_inj, bit, Nat.testBit_eq_decide_div_mod_eq]
  by_cases set : byte.toNat / 2 ^ 7 % 2 = 1
  · rw [decide_eq_true set]
    exact iff_of_false (by decide) (by omega)
  · rw [decide_eq_false set]
    exact iff_of_true (by decide) (by omega)

/-- What the chosen modes add to the number of a family. -/
def offset (keep ret wide : Bool) : Nat :=
  (if keep then 0x80 else 0) + (if ret then 0x40 else 0) + (if wide then 0x20 else 0)

def byte (family : Fin 32) (keep ret wide : Bool) : UInt8 :=
  UInt8.ofNat (family + offset keep ret wide)

/-- The set of the chosen modes. -/
def modes (keep ret wide : Bool) : Modes :=
  Modes.ofByte (UInt8.ofNat (offset keep ret wide))

theorem offset_le (keep ret wide : Bool) : offset keep ret wide ≤ 0xe0 := by
  cases keep <;> cases ret <;> cases wide <;> decide

theorem toNat_byte (family : Fin 32) (keep ret wide : Bool) :
    (byte family keep ret wide).toNat = family + offset keep ret wide := by
  have bound := offset_le keep ret wide
  exact UInt8.toNat_ofNat_of_lt' (show family + offset keep ret wide < 256 by omega)

theorem exists_byte_eq (candidate : UInt8) :
    ∃ family keep ret wide, candidate = byte family keep ret wide := by
  have bound := candidate.toNat_lt
  refine ⟨(Family.ofByte candidate).index, decide (128 ≤ candidate.toNat),
    decide (64 ≤ candidate.toNat % 128), decide (32 ≤ candidate.toNat % 64), ?_⟩
  rw [← UInt8.toNat_inj, toNat_byte, Family.val_index_ofByte]
  simp only [offset, decide_eq_true_eq]
  split <;> split <;> split <;> omega

theorem toNat_byte_mod (family : Fin 32) (keep ret wide : Bool) :
    (byte family keep ret wide).toNat % 32 = family := by
  have multiple : offset keep ret wide % 32 = 0 := by
    cases keep <;> cases ret <;> cases wide <;> rfl
  rw [toNat_byte]
  omega

theorem le_toNat_byte_iff (family : Fin 32) (keep ret wide : Bool) :
    128 ≤ (byte family keep ret wide).toNat ↔ keep = true := by
  have unkept : offset false ret wide ≤ 0x60 := by
    cases ret <;> cases wide <;> decide
  have kept : 0x80 ≤ offset true ret wide := by
    cases ret <;> cases wide <;> decide
  rw [toNat_byte]
  cases keep with
  | false => exact iff_of_false (by omega) Bool.false_ne_true
  | true => exact iff_of_true (by omega) rfl

@[simp]
theorem ofByte_byte (family : Fin 32) (keep ret wide : Bool) :
    Family.ofByte (byte family keep ret wide) = ⟨family⟩ := by
  rw [Family.mk.injEq, Fin.ext_iff]
  exact toNat_byte_mod family keep ret wide

@[simp]
theorem modes_byte :
    ∀ family keep ret wide, Modes.ofByte (byte family keep ret wide) = modes keep ret wide := by
  decide +kernel

@[simp]
theorem modes_without_keep :
    ∀ keep ret wide, (modes keep ret wide).without Mode.keep.mask = modes false ret wide := by
  decide

theorem modes_inj : ∀ keep ret wide keep' ret' wide',
    modes keep ret wide = modes keep' ret' wide' → keep = keep' ∧ ret = ret' ∧ wide = wide' := by
  decide +kernel

theorem modes_and_unkept (byte : UInt8) :
    Modes.ofByte (byte &&& 0x7f) = (Modes.ofByte byte).without Mode.keep.mask := by
  apply FlagSet.ext
  rw [FlagSet.bits_without, Modes.ofByte, Modes.ofByte, FlagSet.bits_ofBits, FlagSet.bits_ofBits,
    UInt8.and_assoc, UInt8.and_assoc, UInt8.and_comm 0x7f]
  rfl

/-- A byte is known by its family and its modes. -/
theorem eq_of_family_of_modes {first second : UInt8}
    (families : Family.ofByte first = Family.ofByte second)
    (settings : Modes.ofByte first = Modes.ofByte second) : first = second := by
  obtain ⟨family, keep, ret, wide, rfl⟩ := exists_byte_eq first
  obtain ⟨family', keep', ret', wide', rfl⟩ := exists_byte_eq second
  rw [ofByte_byte, ofByte_byte, Family.mk.injEq] at families
  rw [modes_byte, modes_byte] at settings
  obtain ⟨rfl, rfl, rfl⟩ := modes_inj _ _ _ _ _ _ settings
  rw [families]

theorem ofByte_and_unkept (candidate : UInt8) :
    Family.ofByte (candidate &&& 0x7f) = Family.ofByte candidate := by
  unfold Family.ofByte
  rw [Family.mk.injEq, Fin.ext_iff, toNat_and_unkept]
  exact Nat.mod_mod_of_dvd candidate.toNat (by decide)

theorem byte_and_unkept (family : Fin 32) (keep ret wide : Bool) :
    byte family keep ret wide &&& 0x7f = byte family false ret wide := by
  apply eq_of_family_of_modes
  · rw [ofByte_and_unkept, ofByte_byte, ofByte_byte]
  · rw [modes_and_unkept, modes_byte, modes_byte, modes_without_keep]

theorem exists_modes_eq (set : Modes) : ∃ keep ret wide, set = modes keep ret wide := by
  obtain ⟨family, keep, ret, wide, same⟩ := exists_byte_eq set.bits
  refine ⟨keep, ret, wide, ?_⟩
  rw [← modes_byte family, ← same]
  exact (FlagSet.ofBits_bits set).symm

/-! ## Mnemonics -/

/-- The letters of the chosen modes, in the order of the suffix. -/
def letters (keep ret wide : Bool) : String :=
  (if keep then "k" else "") ++ (if ret then "r" else "") ++ (if wide then "2" else "")

@[simp]
theorem suffix_modes :
    ∀ keep ret wide, (modes keep ret wide).suffix = letters keep ret wide := by
  decide

theorem letters_inj : ∀ keep ret wide keep' ret' wide',
    letters keep ret wide = letters keep' ret' wide' →
      keep = keep' ∧ ret = ret' ∧ wide = wide' := by
  decide

theorem suffix_injective : Function.Injective Modes.suffix := by
  intro first second same
  obtain ⟨keep, ret, wide, rfl⟩ := exists_modes_eq first
  obtain ⟨keep', ret', wide', rfl⟩ := exists_modes_eq second
  rw [suffix_modes, suffix_modes] at same
  obtain ⟨rfl, rfl, rfl⟩ := letters_inj _ _ _ _ _ _ same
  rfl

def isLetter (character : Char) : Bool :=
  Mode.letters.any fun entry => entry.2 == character

theorem isLetter_suffix (set : Modes) :
    ∀ character ∈ set.suffix.toList, isLetter character = true := by
  intro character member
  rw [Modes.suffix, String.toList_ofList] at member
  obtain ⟨entry, chosen, rfl⟩ := List.mem_map.mp member
  exact List.any_eq_true.mpr ⟨entry, (List.mem_filter.mp chosen).1, beq_self_eq_true _⟩

/-- A base does not end in the letter of a mode. -/
def IsBase (name : String) : Prop :=
  ∀ character ∈ name.toList.getLast?, isLetter character = false

instance {name : String} : Decidable (IsBase name) :=
  Option.decidableForallMem name.toList.getLast?

/-- What is left of a mnemonic without the letters at its end is its base. -/
theorem rdropWhile_append_suffix {base : String} (ends : IsBase base) (set : Modes) :
    (base ++ set.suffix).toList.rdropWhile isLetter = base.toList := by
  have letters : ∀ character ∈ set.suffix.toList.reverse, isLetter character = true :=
    fun character member => isLetter_suffix set character (List.mem_reverse.mp member)
  have whole : base.toList.rdropWhile isLetter = base.toList := by
    refine List.rdropWhile_eq_self_iff.mpr fun nonempty letter => ?_
    rw [ends _ (List.getLast?_eq_some_getLast nonempty)] at letter
    cases letter
  rw [String.toList_append, List.rdropWhile, List.reverse_append,
    List.dropWhile_append_of_pos letters]
  exact whole

/-- A mnemonic is composed from one base and one set of modes only. -/
theorem eq_of_append_suffix {first second : String} (ends : IsBase first) (ends' : IsBase second)
    {set set' : Modes} (same : first ++ set.suffix = second ++ set'.suffix) :
    first = second ∧ set = set' := by
  have bases : first = second := by
    rw [String.ext_iff, ← rdropWhile_append_suffix ends set, same,
      rdropWhile_append_suffix ends' set']
  subst bases
  refine ⟨rfl, suffix_injective ?_⟩
  rw [String.ext_iff, String.toList_append, String.toList_append] at same
  rw [String.ext_iff]
  exact List.append_cancel_left same

end Opcodes.Proofs.Layout
