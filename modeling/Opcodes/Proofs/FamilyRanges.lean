import Mathlib.Data.List.ProdSigma
import Mathlib.Data.List.Sublists
import Opcodes.Avc2
import Opcodes.Proofs.FlagRuns
import Opcodes.Proofs.Layout
import Opcodes.Proofs.Ownership

/-!
# What a range of families accepts

A pattern over a range of families looks at the family of a byte and at its
modes, each by itself, although its masks are tested against the whole byte.
So the bytes that it accepts are the admitted families combined with the suited
sets of modes, and their number is a product. The second factor is a power of
two, for any declaration of flags: the masks settle the flags that they name
and leave all others free.
-/

namespace Opcodes.Proofs.FamilyRanges

open FlagRuns Layout Ownership

/-! ## Masks -/

/-- The byte has every bit of one mask and no bit of the other. -/
def Meets (require forbid byte : UInt8) : Prop :=
  byte &&& require = require ∧ byte &&& forbid = 0

instance {require forbid byte : UInt8} : Decidable (Meets require forbid byte) :=
  inferInstanceAs (Decidable (_ ∧ _))

/-- What the masks ask of a single bit. -/
def MeetsAt (require forbid byte : UInt8) (place : Fin 8) : Prop :=
  (bit require place = true → bit byte place = true) ∧
    (bit forbid place = true → bit byte place = false)

section

variable {require forbid byte : UInt8}

theorem meets_iff : Meets require forbid byte ↔ ∀ place, MeetsAt require forbid byte place := by
  have eq_iff (first second : UInt8) :
      first = second ↔ ∀ place, bit first place = bit second place :=
    ⟨fun same _ => same ▸ rfl, ext_bit⟩
  rw [Meets, eq_iff, eq_iff, ← forall_and]
  refine forall_congr' fun place => ?_
  simp only [MeetsAt, bit_and, bit_zero]
  cases bit byte place <;> cases bit require place <;> cases bit forbid place <;> simp

/-- Masks that share a bit cannot both be met. -/
theorem Meets.apart (meets : Meets require forbid byte) : require &&& forbid = 0 := by
  rw [← meets.1, UInt8.and_assoc, UInt8.and_comm require, ← UInt8.and_assoc, meets.2,
    UInt8.zero_and]

theorem meets_and_iff (part : UInt8) :
    Meets (require &&& part) (forbid &&& part) (byte &&& part) ↔
      ∀ place, bit part place = true → MeetsAt require forbid byte place := by
  rw [meets_iff]
  refine forall_congr' fun place => ?_
  simp only [MeetsAt, bit_and]
  cases bit part place <;> simp

/-- Masks are met by a byte if they are met in parts that leave out no bit. -/
theorem meets_iff_parts {low high : UInt8}
    (whole : ∀ place, bit low place = true ∨ bit high place = true) :
    Meets require forbid byte ↔
      Meets (require &&& low) (forbid &&& low) (byte &&& low) ∧
        Meets (require &&& high) (forbid &&& high) (byte &&& high) := by
  rw [meets_and_iff, meets_and_iff, meets_iff]
  constructor
  · exact fun each => ⟨fun place _ => each place, fun place _ => each place⟩
  · rintro ⟨lower, upper⟩ place
    exact (whole place).elim (lower place) (upper place)

end

/-! ## Sets over a declaration -/

/-- The declared flags of a byte, and the chosen ones besides. -/
def filled (flags : List Flag) (byte : UInt8) (chosen : List Flag) : FlagSet flags :=
  .ofBits flags (byte ||| Flag.union chosen)

/-- All sets over a declaration, each made from the flags that it has. -/
def sets (flags : List Flag) : List (FlagSet flags) :=
  flags.sublists.map (filled flags 0)

/-- The set meets what the masks ask of its flags. -/
def Suits {flags : List Flag} (require forbid : UInt8) (set : FlagSet flags) : Prop :=
  Meets (FlagSet.ofBits flags require).bits (FlagSet.ofBits flags forbid).bits set.bits

instance {flags : List Flag} {require forbid : UInt8} {set : FlagSet flags} :
    Decidable (Suits require forbid set) :=
  inferInstanceAs (Decidable (Meets _ _ _))

/-- The sets over a declaration that suit the masks. -/
def settings (flags : List Flag) (require forbid : UInt8) : List (FlagSet flags) :=
  (sets flags).filter fun set => Suits require forbid set

/-- The declared flags that neither mask names. -/
def free (flags : List Flag) (require forbid : UInt8) : List Flag :=
  flags.filter fun flag => !bit require flag.position && !bit forbid flag.position

section

variable {flags : List Flag} {require forbid : UInt8}

theorem mem_free {flag : Flag} :
    flag ∈ free flags require forbid ↔
      flag ∈ flags ∧ bit require flag.position = false ∧ bit forbid flag.position = false := by
  simp [free]

theorem has_ofBits {flag : Flag} (member : flag ∈ flags) (byte : UInt8) :
    (FlagSet.ofBits flags byte).has flag = bit byte flag.position := by
  have declared : declares flags flag.position = true := declares_iff.mpr ⟨flag, member, rfl⟩
  rw [has_eq_bit, FlagSet.bits_ofBits, bit_and, bit_union, declared, Bool.and_true]

theorem suits_iff {set : FlagSet flags} :
    Suits require forbid set ↔
      ∀ flag ∈ flags, (bit require flag.position = true → set.has flag = true) ∧
        (bit forbid flag.position = true → set.has flag = false) := by
  rw [Suits, meets_iff]
  constructor
  · intro each flag member
    have own := each flag.position
    simpa only [MeetsAt, ← has_eq_bit, has_ofBits member] using own
  · intro each place
    cases declared : declares flags place with
    | true =>
        obtain ⟨flag, member, rfl⟩ := declares_iff.mp declared
        simpa only [MeetsAt, ← has_eq_bit, has_ofBits member] using each flag member
    | false => simp [MeetsAt, bit_and, bit_union, declared]

/-- The masks share no declared flag. -/
theorem isEmpty_shared_iff :
    (FlagSet.ofBits flags (require &&& forbid)).isEmpty = true ↔
      ∀ flag ∈ flags, bit require flag.position = true → bit forbid flag.position = false := by
  rw [FlagRuns.isEmpty_iff]
  refine forall₂_congr fun flag member => ?_
  rw [has_ofBits member, bit_and]
  cases bit require flag.position <;> simp

theorem Suits.isEmpty_shared {set : FlagSet flags} (suits : Suits require forbid set) :
    (FlagSet.ofBits flags (require &&& forbid)).isEmpty = true := by
  refine isEmpty_shared_iff.mpr fun flag member required => ?_
  obtain ⟨kept, dropped⟩ := suits_iff.mp suits flag member
  refine Bool.eq_false_iff.mpr fun forbidden => ?_
  cases (kept required).symm.trans (dropped forbidden)

-- From here on no two declared flags stand in one place.
variable (distinct : (flags.map Flag.position).Nodup)

include distinct

theorem has_filled {byte : UInt8} {chosen : List Flag} (sub : chosen ⊆ flags) {flag : Flag}
    (member : flag ∈ flags) :
    (filled flags byte chosen).has flag = true ↔
      bit byte flag.position = true ∨ flag ∈ chosen := by
  rw [filled, has_ofBits member, bit_or, bit_union, Bool.or_eq_true, declares_iff]
  refine or_congr_right ⟨?_, fun listed => ⟨flag, listed, rfl⟩⟩
  rintro ⟨other, listed, same⟩
  rwa [List.inj_on_of_nodup_map distinct member (sub listed) same.symm]

theorem eq_filled {byte : UInt8} {chosen : List Flag} (sub : chosen ⊆ flags) {set : FlagSet flags}
    (told : ∀ flag ∈ flags, set.has flag = true ↔ bit byte flag.position = true ∨ flag ∈ chosen) :
    set = filled flags byte chosen := by
  refine eq_of_has fun flag member => ?_
  rw [Bool.eq_iff_iff, told flag member, has_filled distinct sub member]

/-- A choice from flags that a byte leaves clear can be read off the filled set. -/
theorem mem_iff_has_filled {byte : UInt8} {choices chosen : List Flag}
    (sub : choices.Sublist flags) (clear : ∀ flag ∈ choices, bit byte flag.position = false)
    (part : chosen.Sublist choices) (flag : Flag) :
    flag ∈ chosen ↔ flag ∈ choices ∧ (filled flags byte chosen).has flag = true := by
  have has_iff (choice : flag ∈ choices) :
      (filled flags byte chosen).has flag = true ↔ flag ∈ chosen := by
    rw [has_filled distinct (part.trans sub).subset (sub.subset choice), clear flag choice]
    exact or_iff_right Bool.false_ne_true
  constructor
  · exact fun listed => ⟨part.subset listed, (has_iff (part.subset listed)).mpr listed⟩
  · exact fun ⟨choice, set⟩ => (has_iff choice).mp set

theorem nodup_filled {byte : UInt8} {choices : List Flag} (sub : choices.Sublist flags)
    (clear : ∀ flag ∈ choices, bit byte flag.position = false) :
    (choices.sublists.map (filled flags byte)).Nodup := by
  have nodup : choices.Nodup := distinct.of_map.sublist sub
  refine (List.nodup_sublists.mpr nodup).map_on fun first part second part' same => ?_
  rw [List.mem_sublists] at part part'
  have members (flag : Flag) : flag ∈ first ↔ flag ∈ second := by
    rw [mem_iff_has_filled distinct sub clear part, mem_iff_has_filled distinct sub clear part',
      same]
  have perm : first.Perm second :=
    (List.perm_ext_iff_of_nodup (nodup.sublist part) (nodup.sublist part')).mpr members
  exact (nodup.perm_iff_eq_of_sublist part part').mp perm

theorem nodup_sets : (sets flags).Nodup :=
  nodup_filled distinct (.refl flags) fun flag _ => bit_zero flag.position

theorem mem_sets (set : FlagSet flags) : set ∈ sets flags := by
  have sub : set.toList.Sublist flags := List.filter_sublist
  refine List.mem_map.mpr ⟨set.toList, List.mem_sublists.mpr sub, Eq.symm ?_⟩
  refine eq_filled distinct sub.subset fun flag member => ?_
  simp [bit_zero, FlagSet.toList, member]

theorem nodup_settings : (settings flags require forbid).Nodup :=
  (nodup_sets distinct).filter _

theorem mem_settings {set : FlagSet flags} :
    set ∈ settings flags require forbid ↔ Suits require forbid set := by
  rw [settings, List.mem_filter, decide_eq_true_eq]
  exact and_iff_right (mem_sets distinct set)

/-- Where the masks share no flag, the suited sets are the required flags with any choice of the
free ones. -/
theorem suits_iff_exists_filled
    (apart : (FlagSet.ofBits flags (require &&& forbid)).isEmpty = true) {set : FlagSet flags} :
    Suits require forbid set ↔
      ∃ chosen, chosen.Sublist (free flags require forbid) ∧ filled flags require chosen = set := by
  have within : (free flags require forbid).Sublist flags := List.filter_sublist
  rw [suits_iff]
  constructor
  · intro suits
    have sub : ((free flags require forbid).filter set.has).Sublist (free flags require forbid) :=
      List.filter_sublist
    refine ⟨_, sub, (eq_filled distinct (sub.trans within).subset fun flag member => ?_).symm⟩
    have asked := suits flag member
    rw [List.mem_filter, mem_free]
    cases required : bit require flag.position with
    | true => simp [asked.1 required]
    | false =>
        cases forbidden : bit forbid flag.position with
        | true => simp [asked.2 forbidden]
        | false => simp [member]
  · rintro ⟨chosen, sub, rfl⟩ flag member
    rw [← Bool.not_eq_true, has_filled distinct (sub.trans within).subset member]
    refine ⟨.inl, fun forbidden => not_or.mpr ⟨fun required => ?_, fun listed => ?_⟩⟩
    · simp [isEmpty_shared_iff.mp apart flag member required] at forbidden
    · simp [(mem_free.mp (sub.subset listed)).2.2] at forbidden

/-- The suited sets are as many as the choices of free flags, unless the masks share a flag. -/
theorem length_settings :
    (settings flags require forbid).length =
      if (FlagSet.ofBits flags (require &&& forbid)).isEmpty then
        2 ^ (free flags require forbid).length
      else 0 := by
  split
  · next apart =>
      have within : (free flags require forbid).Sublist flags := List.filter_sublist
      have unset : ∀ flag ∈ free flags require forbid, bit require flag.position = false :=
        fun flag choice => (mem_free.mp choice).2.1
      have perm : (settings flags require forbid).Perm
          ((free flags require forbid).sublists.map (filled flags require)) := by
        refine (List.perm_ext_iff_of_nodup (nodup_settings distinct)
          (nodup_filled distinct within unset)).mpr fun set => ?_
        rw [mem_settings distinct, suits_iff_exists_filled distinct apart, List.mem_map]
        simp only [List.mem_sublists]
      rw [perm.length_eq, List.length_map, List.length_sublists]
  · next shared =>
      rw [List.length_eq_zero_iff, List.eq_nil_iff_forall_not_mem]
      exact fun set member => shared ((mem_settings distinct).mp member).isEmpty_shared

end

/-! ## Families and modes of a byte -/

theorem toByte_ofByte (byte : UInt8) : (Family.ofByte byte).toByte = byte &&& 0x1f := by
  rw [← UInt8.toNat_inj, toNat_and_family, ← Family.val_index_ofByte]
  exact UInt8.toNat_ofNat_of_lt' (Nat.lt_trans (Family.ofByte byte).index.isLt (by decide))

theorem exists_byte_of_parts (family : Family) (modes : Modes) :
    ∃ byte, Family.ofByte byte = family ∧ Modes.ofByte byte = modes := by
  obtain ⟨keep, ret, wide, rfl⟩ := exists_modes_eq modes
  exact ⟨byte family.index keep ret wide, ofByte_byte _ _ _ _, modes_byte _ _ _ _⟩

theorem distinct_modes : (Mode.flags.map Flag.position).Nodup := by
  decide

/-- All families, lowest first. -/
def families : List Family :=
  (List.finRange 32).map Family.mk

theorem mem_families (family : Family) : family ∈ families :=
  List.mem_map.mpr ⟨family.index, List.mem_finRange _, rfl⟩

theorem nodup_families : families.Nodup :=
  (List.nodup_finRange 32).map fun _ _ same => (Family.mk.injEq _ _).mp same

/-- The family is in the range and meets what the masks ask of the family bits. -/
def Admits (first last : Family) (require forbid : UInt8) (family : Family) : Prop :=
  first.index ≤ family.index ∧ family.index ≤ last.index ∧
    Meets (Family.ofByte require).toByte (Family.ofByte forbid).toByte family.toByte

instance {first last family : Family} {require forbid : UInt8} :
    Decidable (Admits first last require forbid family) :=
  inferInstanceAs (Decidable (_ ∧ _ ∧ _))

def admitted (first last : Family) (require forbid : UInt8) : List Family :=
  families.filter fun family => Admits first last require forbid family

/-! ## Patterns -/

section

variable {first last : Family} {require forbid byte : UInt8}

theorem mem_admitted {family : Family} :
    family ∈ admitted first last require forbid ↔ Admits first last require forbid family := by
  rw [admitted, List.mem_filter, decide_eq_true_eq]
  exact and_iff_right (mem_families family)

theorem nodup_admitted : (admitted first last require forbid).Nodup :=
  nodup_families.filter _

theorem accepts_iff_meets :
    (Pattern.families first last require forbid).accepts byte = true ↔
      (first.index ≤ (Family.ofByte byte).index ∧ (Family.ofByte byte).index ≤ last.index) ∧
        Meets require forbid byte := by
  simp only [Pattern.accepts, Bool.and_eq_true, decide_eq_true_eq, beq_iff_eq, Meets, and_assoc]

theorem accepts_iff :
    (Pattern.families first last require forbid).accepts byte = true ↔
      Admits first last require forbid (Family.ofByte byte) ∧
        Suits require forbid (Modes.ofByte byte) := by
  -- The low bits are those of the family, and all others belong to modes.
  have whole : ∀ place, bit 0x1f place = true ∨ bit (Flag.union Mode.flags) place = true := by
    decide
  rw [accepts_iff_meets, meets_iff_parts whole, ← toByte_ofByte, ← toByte_ofByte, ← toByte_ofByte,
    Admits, ← and_assoc, and_assoc (a := first.index ≤ _)]
  rfl

theorem nodup_bytes (pattern : Pattern) : pattern.bytes.Nodup :=
  (pairwise_all.imp UInt8.ne_of_lt).filter _

/-- The bytes that a range accepts are its admitted families, each with each suited set of
modes. -/
theorem perm_bytes :
    ((Pattern.families first last require forbid).bytes.map fun byte =>
        (Family.ofByte byte, Modes.ofByte byte)).Perm
      (admitted first last require forbid ×ˢ settings Mode.flags require forbid) := by
  have known : Function.Injective fun byte => (Family.ofByte byte, Modes.ofByte byte) :=
    fun _ _ same => eq_of_family_of_modes (congrArg Prod.fst same) (congrArg Prod.snd same)
  refine (List.perm_ext_iff_of_nodup ((nodup_bytes _).map known)
    (nodup_admitted.product (nodup_settings distinct_modes))).mpr fun ⟨family, modes⟩ => ?_
  rw [List.mem_map, List.mem_product, mem_admitted, mem_settings distinct_modes]
  constructor
  · rintro ⟨byte, accepted, same⟩
    cases same
    exact accepts_iff.mp (Pattern.mem_bytes.mp accepted)
  · intro parts
    obtain ⟨byte, rfl, rfl⟩ := exists_byte_of_parts family modes
    exact ⟨byte, Pattern.mem_bytes.mpr (accepts_iff.mpr parts), rfl⟩

theorem length_bytes :
    (Pattern.families first last require forbid).bytes.length =
      (admitted first last require forbid).length *
        (settings Mode.flags require forbid).length := by
  rw [← List.length_product, ← perm_bytes.length_eq, List.length_map]

theorem bytes_eq_nil_of_empty
    (empty : last.index < first.index ∨ require &&& forbid ≠ 0) :
    (Pattern.families first last require forbid).bytes = [] := by
  rw [List.eq_nil_iff_forall_not_mem]
  intro byte member
  obtain ⟨⟨low, high⟩, meets⟩ := accepts_iff_meets.mp (Pattern.mem_bytes.mp member)
  rcases empty with reversed | shared
  · exact absurd (Fin.le_trans low high) (Fin.not_le.mpr reversed)
  · exact shared meets.apart

end

/-! ## Rules -/

/-- The rule governs no byte, even where no other rule is tried. -/
def IsDead (rule : Rule) : Prop :=
  ∀ naming byte, (InstructionSet.mk naming [rule]).governing? byte = none

theorem isDead_iff {rule : Rule} : IsDead rule ↔ rule.pattern.bytes = [] := by
  simp only [IsDead, InstructionSet.governing?, List.eq_nil_iff_forall_not_mem, Pattern.mem_bytes,
    List.find?_eq_none, List.forall_mem_singleton]
  exact ⟨fun dead => dead Avc2.naming, fun none _ => none⟩

/-- A range of families looks at the family and at the modes of a byte, each by itself. The bytes
that it accepts are as many as the admitted families times the suited sets of modes, and the
latter are two to the number of modes in neither mask unless the masks share a mode. So there are
no bytes where the range is reversed or the masks share any bit. A rule for the range is dead by
itself exactly if one of the factors is zero. -/
theorem range_is_families_by_modes (first last : Family) (require forbid : UInt8) :
    (∀ byte, (Pattern.families first last require forbid).accepts byte = true ↔
      Admits first last require forbid (Family.ofByte byte) ∧
        Suits require forbid (Modes.ofByte byte)) ∧
    (Pattern.families first last require forbid).bytes.length =
      (admitted first last require forbid).length *
        (settings Mode.flags require forbid).length ∧
    (settings Mode.flags require forbid).length =
      (if (Modes.ofByte (require &&& forbid)).isEmpty then
        2 ^ (free Mode.flags require forbid).length
      else 0) ∧
    (Pattern.families first last require forbid).bytes.length =
      (if last.index < first.index ∨ require &&& forbid ≠ 0 then 0
      else (admitted first last require forbid).length *
        2 ^ (free Mode.flags require forbid).length) ∧
    ∀ label outcome, IsDead ⟨label, .families first last require forbid, outcome⟩ ↔
      (admitted first last require forbid).length = 0 ∨
        (settings Mode.flags require forbid).length = 0 := by
  refine ⟨fun byte => accepts_iff, length_bytes, length_settings distinct_modes, ?_,
    fun label outcome => ?_⟩
  · split
    · next empty => rw [bytes_eq_nil_of_empty empty, List.length_nil]
    · next fits =>
        obtain ⟨-, apart⟩ := not_or.mp fits
        rw [length_bytes, length_settings distinct_modes, not_not.mp apart]
        rfl
  · rw [isDead_iff, ← List.length_eq_zero_iff, length_bytes, Nat.mul_eq_zero]

-- Of the families from 0x03 to 0x09 two have bit 0 set and bit 2 clear, and one mode is left free.
example : (Pattern.families ⟨3⟩ ⟨9⟩ 0x81 0x44).bytes = [0x83, 0x89, 0xa3, 0xa9] := by
  decide

end Opcodes.Proofs.FamilyRanges
