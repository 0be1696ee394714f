import Opcodes.Proofs.Ownership

/-!
# Filling a table again

A finished table decodes every byte itself. A table that is filled from it goes
through the same owners, byte by byte: an alias of the first table produces
nothing any more, and all other bytes meet the owners that they met before. So
the second filling changes no entry and no owner, and finds no alias.
-/

namespace Opcodes.Proofs.Refilling

open Ownership

variable {resolve again : UInt8 → Resolution}

/-! ## Two runs in step -/

/-- A byte that is placed as it came out is not aliased, and the owners become the same again. -/
theorem place_again (owners : Owners) (byte : UInt8) {first second : Resolution}
    (same : second.instruction = (Entry.place owners byte first).1.resolution.instruction) :
    Entry.place owners byte second = (.plain second, (Entry.place owners byte first).2) := by
  unfold Entry.place at same ⊢
  cases named : first.instruction.mnemonic? with
  | none =>
      simp only [named, Entry.plain] at same
      simp only [same, named]
  | some mnemonic =>
      cases known : owners.lookup mnemonic with
      | none =>
          simp only [named, known, Entry.plain] at same
          simp only [same, named, known]
      | some owner =>
          cases composed : first.instruction.isComposed with
          | false =>
              simp only [named, known, composed, Bool.false_eq_true, if_false, Entry.plain] at same
              simp only [same, named, known, composed, Bool.false_eq_true, if_false]
          | true =>
              -- What was aliased has lost its instruction, so it asks for no owner.
              simp only [named, known, composed, if_true, Entry.aliased] at same
              simp only [same, known, if_true, Instruction.mnemonic?]

/-- A run over what another run has made of the bytes keeps pace with it. -/
theorem scan_again (owners : Owners) (bytes : List UInt8)
    (same : (bytes.map fun byte => (again byte).instruction) =
      (Entry.scan resolve owners bytes).1.map fun entry => entry.resolution.instruction) :
    Entry.scan again owners bytes =
      (bytes.map fun byte => .plain (again byte), (Entry.scan resolve owners bytes).2) := by
  induction bytes generalizing owners with
  | nil => rfl
  | cons byte rest ih =>
      simp only [Entry.scan, List.map_cons, List.cons.injEq] at same
      obtain ⟨first, later⟩ := same
      simp only [Entry.scan, List.map_cons, place_again owners byte first, ih _ later]

/-! ## The second table -/

theorem toList_entries_build (resolve : UInt8 → Resolution) :
    (Table.build resolve).entries.toList = (Entry.scan resolve [] Byte.all).1 := by
  simp only [Table.build, Vector.toList_mk]

theorem owners_build (resolve : UInt8 → Resolution) :
    (Table.build resolve).owners = (Entry.scan resolve [] Byte.all).2 := by
  simp only [Table.build]

/-- The decoder makes of each byte what a table holds for it in the end. -/
def DecodesAs (again : UInt8 → Resolution) (table : Table) : Prop :=
  ∀ byte, (again byte).instruction = table.instruction byte

namespace DecodesAs

variable (final : DecodesAs again (Table.build resolve))
include final

theorem scan_eq :
    Entry.scan again [] Byte.all =
      (Byte.all.map fun byte => .plain (again byte), (Table.build resolve).owners) := by
  have made : (Byte.all.map fun byte => (again byte).instruction) =
      (Entry.scan resolve [] Byte.all).1.map fun entry => entry.resolution.instruction := by
    rw [← toList_entries_build, toList_entries, List.map_map]
    exact List.map_congr_left fun byte _ => final byte
  rw [scan_again [] Byte.all made, owners_build]

theorem entry_eq (byte : UInt8) : (Table.build again).entry byte = .plain (again byte) := by
  have listed : Byte.all.map (Table.build again).entry =
      Byte.all.map fun byte => .plain (again byte) := by
    rw [← toList_entries, toList_entries_build, final.scan_eq]
  exact map_all_inj.mp listed byte

theorem aliasOf?_eq_none (byte : UInt8) : (Table.build again).aliasOf? byte = none := by
  rw [Table.aliasOf?, final.entry_eq, Entry.plain]

theorem resolution_eq (byte : UInt8) : (Table.build again).resolution byte = again byte := by
  rw [Table.resolution, final.entry_eq, Entry.plain]

theorem find?_eq (mnemonic : String) :
    (Table.build again).find? mnemonic = (Table.build resolve).find? mnemonic := by
  rw [Table.find?, Table.find?, owners_build, final.scan_eq]

end DecodesAs

/-- A table that is filled from a finished one has its entries and its owners, and no aliases. The
same holds of a table filled by any decoder that gives each byte its final instruction. -/
theorem filling_again_changes_nothing (resolve : UInt8 → Resolution) :
    (∀ byte, (Table.build (Table.build resolve).resolution).resolution byte =
        (Table.build resolve).resolution byte) ∧
      (∀ mnemonic, (Table.build (Table.build resolve).resolution).find? mnemonic =
        (Table.build resolve).find? mnemonic) ∧
      (∀ byte, (Table.build (Table.build resolve).resolution).aliasOf? byte = none) ∧
      ∀ again, DecodesAs again (Table.build resolve) →
        (∀ byte, (Table.build again).instruction byte =
            (Table.build resolve).instruction byte) ∧
          (∀ mnemonic, (Table.build again).find? mnemonic =
            (Table.build resolve).find? mnemonic) ∧
          ∀ byte, (Table.build again).aliasOf? byte = none := by
  have final : DecodesAs (Table.build resolve).resolution (Table.build resolve) := fun _ => rfl
  refine ⟨final.resolution_eq, final.find?_eq, final.aliasOf?_eq_none, fun again decodes => ?_⟩
  refine ⟨fun byte => ?_, decodes.find?_eq, decodes.aliasOf?_eq_none⟩
  rw [Table.instruction, decodes.resolution_eq]
  exact decodes byte

end Opcodes.Proofs.Refilling
