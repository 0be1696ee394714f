import Opcodes.Proofs.Decoding

/-!
# The language of mnemonics

A mnemonic of the machine is a fixed name, or a base with the letters of modes
that the base admits, and the byte that it spells can be read off it. If the
families are named without ambiguity, each mnemonic spells one byte, and a
look-up finds exactly the mnemonics of this language at the bytes that they
spell.
-/

namespace Opcodes.Proofs.Spelling

open Decoding Layout Ownership

/-! ## Namings -/

/-- The names that the rules bring with them. -/
def reserved : List String :=
  "LIT" :: fixedNames.map Prod.snd

/-- The named families have names of their own, which are not those of the rules and do not end in
the letter of a mode. -/
structure Unambiguous (naming : Naming) : Prop where
  distinct : ∀ first second : Fin 32, naming[first] ≠ "" → naming[first] = naming[second] →
    first = second
  bases : ∀ family : Fin 32, IsBase naming[family]
  free : ∀ family : Fin 32, naming[family] ∉ reserved

theorem unambiguous_avc2 : Unambiguous Avc2.naming where
  distinct := by
    decide +kernel
  bases := by
    decide +kernel
  free := by
    decide +kernel

theorem name?_of_ne {naming : Naming} {family : Fin 32} (named : naming[family] ≠ "") :
    naming.name? ⟨family⟩ = some naming[family] :=
  if_neg (mt String.isEmpty_iff.mp named)

theorem name?_eq_some_iff {naming : Naming} {family : Fin 32} {name : String} :
    naming.name? ⟨family⟩ = some name ↔ naming[family] ≠ "" ∧ naming[family] = name := by
  constructor
  · intro found
    obtain ⟨named, same⟩ := Option.ite_none_left_eq_some.mp found
    exact ⟨mt String.isEmpty_iff.mpr named, Option.some.inj same⟩
  · rintro ⟨named, rfl⟩
    exact name?_of_ne named

/-! ## Spellings -/

/-- A mnemonic spells a byte: a fixed name its own one, a base that of the base with the modes whose
letters follow. Only a family that is no shuffle admits keep. -/
inductive Spells (naming : Naming) : String → UInt8 → Prop where
  | fixed {code : UInt8} {name : String} (known : (code, name) ∈ fixedNames) :
      Spells naming name code
  | literal (ret wide : Bool) :
      Spells naming ("LIT" ++ letters false ret wide) (UInt8.ofNat (0x80 + offset false ret wide))
  | shuffle (family : Fin 32) (ret wide : Bool) (first : 3 ≤ family.val) (last : family.val ≤ 7)
      (named : naming[family] ≠ "") :
      Spells naming (naming[family] ++ letters false ret wide)
        (UInt8.ofNat (family.val + offset false ret wide))
  | general (family : Fin 32) (keep ret wide : Bool) (first : 8 ≤ family.val)
      (named : naming[family] ≠ "") :
      Spells naming (naming[family] ++ letters keep ret wide)
        (UInt8.ofNat (family.val + offset keep ret wide))

/-- A name with which mnemonics begin, and the number of the byte that it spells alone. -/
inductive Begins (naming : Naming) : String → Nat → Prop where
  | literal : Begins naming "LIT" 0x80
  | fixed {code : UInt8} {name : String} (known : (code, name) ∈ fixedNames) :
      Begins naming name code.toNat
  | family (family : Fin 32) (named : naming[family] ≠ "") :
      Begins naming naming[family] family.val

variable {naming : Naming}

theorem mem_reserved {code : UInt8} {name : String} (known : (code, name) ∈ fixedNames) :
    name ∈ reserved :=
  List.mem_cons_of_mem _ (List.mem_map_of_mem known)

theorem not_mem_fixedNames (code : UInt8) : (code, "LIT") ∉ fixedNames := by
  simp [fixedNames]

namespace Begins

theorem isBase (unambiguous : Unambiguous naming) {name : String} {start : Nat}
    (begins : Begins naming name start) : IsBase name := by
  have fixed : ∀ entry ∈ fixedNames, IsBase entry.2 := by
    decide
  cases begins with
  | literal => decide
  | fixed known => exact fixed _ known
  | family family named => exact unambiguous.bases family

theorem unique (unambiguous : Unambiguous naming) {name : String} {start start' : Nat}
    (begins : Begins naming name start) (begins' : Begins naming name start') :
    start = start' := by
  have codes : ∀ entry ∈ fixedNames, ∀ other ∈ fixedNames, entry.2 = other.2 →
      entry.1 = other.1 := by
    decide
  generalize same : name = name' at begins'
  cases begins with
  | literal =>
      cases begins' with
      | literal => rfl
      | fixed known => exact absurd (same ▸ known) (not_mem_fixedNames _)
      | family family named =>
          exact absurd (same ▸ List.mem_cons_self) (unambiguous.free family)
  | fixed known =>
      cases begins' with
      | literal => exact absurd (same ▸ known) (not_mem_fixedNames _)
      | fixed known' => exact congrArg UInt8.toNat (codes _ known _ known' same)
      | family family named =>
          exact absurd (same ▸ mem_reserved known) (unambiguous.free family)
  | family family named =>
      cases begins' with
      | literal => exact absurd (same ▸ List.mem_cons_self) (unambiguous.free family)
      | fixed known => exact absurd (same ▸ mem_reserved known) (unambiguous.free family)
      | family family' named' => rw [unambiguous.distinct family family' named same]

end Begins

namespace Spells

theorem exists_begins {mnemonic : String} {code : UInt8} (spells : Spells naming mnemonic code) :
    ∃ base start keep ret wide, Begins naming base start ∧
      mnemonic = base ++ letters keep ret wide ∧
      code = UInt8.ofNat (start + offset keep ret wide) := by
  cases spells with
  | fixed known =>
      refine ⟨_, _, false, false, false, .fixed known, ?_, ?_⟩
      · exact String.append_empty.symm
      · exact UInt8.ofNat_toNat.symm
  | literal ret wide => exact ⟨_, _, false, ret, wide, .literal, rfl, rfl⟩
  | shuffle family ret wide first last named =>
      exact ⟨_, _, false, ret, wide, .family family named, rfl, rfl⟩
  | general family keep ret wide first named =>
      exact ⟨_, _, keep, ret, wide, .family family named, rfl, rfl⟩

/-- A mnemonic spells one byte only. -/
theorem unique (unambiguous : Unambiguous naming) {mnemonic : String} {code code' : UInt8}
    (spells : Spells naming mnemonic code) (spells' : Spells naming mnemonic code') :
    code = code' := by
  obtain ⟨base, start, keep, ret, wide, begins, text, rfl⟩ := spells.exists_begins
  obtain ⟨base', start', keep', ret', wide', begins', text', rfl⟩ := spells'.exists_begins
  have same : base ++ (modes keep ret wide).suffix = base' ++ (modes keep' ret' wide').suffix := by
    rw [suffix_modes, suffix_modes, ← text, ← text']
  obtain ⟨rfl, settings⟩ :=
    eq_of_append_suffix (begins.isBase unambiguous) (begins'.isBase unambiguous) same
  obtain ⟨rfl, rfl, rfl⟩ := modes_inj _ _ _ _ _ _ settings
  rw [begins.unique unambiguous begins']

end Spells

/-! ## Producers -/

section

variable {family : Fin 32} {keep ret wide : Bool}

theorem produced?_of_literal (taken : step (byte family keep ret wide) = .literal) :
    produced? (machine naming).resolve (byte family keep ret wide) =
      some ("LIT" ++ letters false ret wide) := by
  rw [produced?, instruction_resolve, taken, Step.instruction, modes_byte, modes_without_keep,
    Instruction.mnemonic?, suffix_modes]

theorem produced?_of_fixed {code : UInt8} {name : String} (taken : step code = .fixed name) :
    produced? (machine naming).resolve code = some name := by
  rw [produced?, instruction_resolve, taken, Step.instruction, Instruction.mnemonic?]

theorem produced?_of_vacant {code : UInt8} (taken : step code = .vacant) :
    produced? (machine naming).resolve code = none := by
  rw [produced?, instruction_resolve, taken, Step.instruction, Instruction.mnemonic?]

theorem mnemonic?_compose (name? : Option String) (keep ret wide : Bool) :
    (InstructionSet.compose name? (modes keep ret wide)).mnemonic? =
      name?.map fun name => name ++ letters keep ret wide := by
  cases name? with
  | none => rfl
  | some name =>
      rw [InstructionSet.compose, Instruction.mnemonic?, suffix_modes, Option.map_some]

theorem produced?_of_shuffle (taken : step (byte family keep ret wide) = .shuffle) :
    produced? (machine naming).resolve (byte family keep ret wide) =
      (naming.name? ⟨family⟩).map fun name => name ++ letters false ret wide := by
  rw [produced?, instruction_resolve, taken, Step.instruction, ofByte_byte, modes_byte,
    modes_without_keep, mnemonic?_compose]

theorem produced?_of_general (taken : step (byte family keep ret wide) = .general) :
    produced? (machine naming).resolve (byte family keep ret wide) =
      (naming.name? ⟨family⟩).map fun name => name ++ letters keep ret wide := by
  rw [produced?, instruction_resolve, taken, Step.instruction, ofByte_byte, modes_byte,
    mnemonic?_compose]

end

/-- The lowest byte with the mnemonic of a byte: for a shuffle, the one without keep. -/
def home (code : UInt8) : UInt8 :=
  if step code = .shuffle then code &&& 0x7f else code

theorem home_of_shuffle {code : UInt8} (taken : step code = .shuffle) :
    home code = code &&& 0x7f :=
  if_pos taken

theorem home_of_ne {code : UInt8} {other : Step} (taken : step code = other)
    (differs : other ≠ .shuffle) : home code = code :=
  if_neg (taken ▸ differs)

theorem home_le (code : UInt8) : home code ≤ code := by
  unfold home
  split
  · rw [UInt8.le_iff_toNat_le, toNat_and_unkept]
    exact Nat.mod_le _ _
  · exact UInt8.le_refl code

theorem literal_byte (ret wide : Bool) :
    byte 0 true ret wide = UInt8.ofNat (0x80 + offset false ret wide) := by
  cases ret <;> cases wide <;> rfl

/-- A mnemonic that the decoder produces spells the home of its producer. -/
theorem spells_home {code : UInt8} {mnemonic : String}
    (produces : produced? (machine naming).resolve code = some mnemonic) :
    Spells naming mnemonic (home code) := by
  obtain ⟨family, keep, ret, wide, rfl⟩ := exists_byte_eq code
  have fits := step_fits (byte family keep ret wide)
  cases taken : step (byte family keep ret wide) with
  | literal =>
      rw [taken, Step.Fits, toNat_byte_mod, le_toNat_byte_iff] at fits
      obtain ⟨zero, rfl⟩ := fits
      obtain rfl : family = 0 := Fin.ext zero
      rw [produced?_of_literal taken, Option.some.injEq] at produces
      rw [home_of_ne taken Step.noConfusion, ← produces, literal_byte]
      exact .literal ret wide
  | fixed name =>
      rw [taken] at fits
      rw [produced?_of_fixed taken, Option.some.injEq] at produces
      rw [home_of_ne taken Step.noConfusion, ← produces]
      exact .fixed fits
  | vacant =>
      rw [produced?_of_vacant taken] at produces
      cases produces
  | shuffle =>
      rw [taken, Step.Fits, toNat_byte_mod] at fits
      rw [produced?_of_shuffle taken] at produces
      obtain ⟨name, found, rfl⟩ := Option.map_eq_some_iff.mp produces
      obtain ⟨named, rfl⟩ := name?_eq_some_iff.mp found
      rw [home_of_shuffle taken, byte_and_unkept]
      exact .shuffle family ret wide fits.1 fits.2.1 named
  | general =>
      rw [taken, Step.Fits, toNat_byte_mod] at fits
      rw [produced?_of_general taken] at produces
      obtain ⟨name, found, rfl⟩ := Option.map_eq_some_iff.mp produces
      obtain ⟨named, rfl⟩ := name?_eq_some_iff.mp found
      rw [home_of_ne taken Step.noConfusion]
      exact .general family keep ret wide fits named

/-- A mnemonic that spells a byte is what the decoder makes of it, and the byte is at home. -/
theorem Spells.produced? {code : UInt8} {mnemonic : String}
    (spells : Spells naming mnemonic code) :
    produced? (machine naming).resolve code = some mnemonic ∧ home code = code := by
  cases spells with
  | fixed known =>
      have taken := step_of_mem known
      exact ⟨produced?_of_fixed taken, home_of_ne taken Step.noConfusion⟩
  | literal ret wide =>
      have taken : step (byte 0 true ret wide) = .literal :=
        step_of_literal (toNat_byte_mod 0 true ret wide)
          ((le_toNat_byte_iff 0 true ret wide).mpr rfl)
      rw [← literal_byte]
      exact ⟨produced?_of_literal taken, home_of_ne taken Step.noConfusion⟩
  | shuffle family ret wide first last named =>
      have value := toNat_byte_mod family false ret wide
      have unkept : ¬ 128 ≤ (byte family false ret wide).toNat :=
        mt (le_toNat_byte_iff family false ret wide).mp Bool.false_ne_true
      have taken : step (byte family false ret wide) = .shuffle := by
        refine step_of_shuffle (by omega) (by omega) ?_
        intro same
        rw [same] at unkept
        exact unkept (by decide)
      refine ⟨(produced?_of_shuffle taken).trans ?_,
        (home_of_shuffle taken).trans (byte_and_unkept family false ret wide)⟩
      rw [name?_of_ne named, Option.map_some]
  | general family keep ret wide first named =>
      have value := toNat_byte_mod family keep ret wide
      have taken : step (byte family keep ret wide) = .general :=
        step_of_general (by omega)
      refine ⟨(produced?_of_general taken).trans ?_, home_of_ne taken Step.noConfusion⟩
      rw [name?_of_ne named, Option.map_some]

theorem isHome (unambiguous : Unambiguous naming) : IsHome (machine naming).resolve home where
  le := home_le
  produced := fun produces => (spells_home produces).produced?.1
  shared := fun produces produces' =>
    (spells_home produces).unique unambiguous (spells_home produces')

/-- A look-up finds the byte that a mnemonic spells. -/
theorem find?_eq_some_iff_spells (unambiguous : Unambiguous naming) {mnemonic : String}
    {code : UInt8} :
    (machine naming).table.find? mnemonic = some code ↔ Spells naming mnemonic code := by
  rw [InstructionSet.table, find?_build_eq_some_iff, (isHome unambiguous).isOwner_iff]
  constructor
  · rintro ⟨produces, settled⟩
    exact settled ▸ spells_home produces
  · exact Spells.produced?

/-- A mnemonic that the decoder makes of a byte away from its home is composed. -/
theorem isComposed_of_away {code : UInt8} {mnemonic : String} (away : home code ≠ code)
    (produces : produced? (machine naming).resolve code = some mnemonic) :
    ((machine naming).resolve code).instruction.isComposed = true := by
  have taken : step code = .shuffle := by
    refine Classical.byContradiction fun other => ?_
    exact away (home_of_ne rfl other)
  rw [produced?, instruction_resolve, taken, Step.instruction] at produces
  rw [instruction_resolve, taken, Step.instruction]
  cases named : naming.name? (Family.ofByte code) with
  | none =>
      rw [named] at produces
      cases produces
  | some name => rfl

/-- A mnemonic is found at the byte that has it in the end. -/
theorem find?_eq_some_iff_mnemonic? (unambiguous : Unambiguous naming) {mnemonic : String}
    {code : UInt8} :
    (machine naming).table.find? mnemonic = some code ↔
      ((machine naming).table.instruction code).mnemonic? = some mnemonic := by
  rw [InstructionSet.table, find?_build_eq_some_iff]
  constructor
  · intro owns
    rw [owns.instruction]
    exact owns.1
  · intro named
    obtain ⟨kept, produces⟩ := of_mnemonic? named
    refine (isHome unambiguous).isOwner_iff.mpr ⟨produces, ?_⟩
    refine Classical.byContradiction fun away => ?_
    obtain ⟨_, shadowed⟩ :=
      (isHome unambiguous).build_of_away (isComposed_of_away away produces) away
    rw [kept] at shadowed
    cases shadowed

/-- On the table of the machine, a text is found exactly if it spells a byte, and at that byte. -/
theorem find?_accepts_exactly_spellings (text : String) :
    (∀ code, Avc2.table.find? text = some code ↔ Spells Avc2.naming text code) ∧
      (Avc2.table.find? text = none ↔ ∀ code, ¬ Spells Avc2.naming text code) := by
  have found (code : UInt8) : Avc2.table.find? text = some code ↔
      Spells Avc2.naming text code :=
    find?_eq_some_iff_spells unambiguous_avc2
  refine ⟨found, ?_⟩
  simp only [Option.eq_none_iff_forall_ne_some, Ne, found]

end Opcodes.Proofs.Spelling
