import Opcodes.Table

/-!
# Who owns a mnemonic

A table is filled byte by byte, with any decoder. While it is, the owners
recorded so far are the lowest producers among the bytes entered so far, and
the entry of the next byte depends on nothing else. So in the end a mnemonic is
owned by the lowest byte that produces it, and the aliases are the composing
bytes above an owner.
-/

namespace Opcodes.Proofs.Ownership

variable (resolve : UInt8 → Resolution)

/-- The mnemonic that the decoder gives a byte by itself. -/
def produced? (byte : UInt8) : Option String :=
  (resolve byte).instruction.mnemonic?

/-- A byte is the lowest of those that produce a mnemonic. -/
def IsOwner (mnemonic : String) (byte : UInt8) : Prop :=
  produced? resolve byte = some mnemonic ∧
    ∀ lower < byte, produced? resolve lower ≠ some mnemonic

/-! ## Filling the table -/

/-- The first of the listed bytes that produces a mnemonic. -/
def firstOf (bytes : List UInt8) (mnemonic : String) : Option UInt8 :=
  bytes.find? fun byte => produced? resolve byte == some mnemonic

/-- The listed byte to which a composing byte has to leave its mnemonic. -/
def rival? (bytes : List UInt8) (byte : UInt8) : Option UInt8 :=
  if (resolve byte).instruction.isComposed then
    (produced? resolve byte).bind (firstOf resolve bytes)
  else
    none

/-- The entry of a byte that has a rival or none. -/
def settled (resolution : Resolution) : Option UInt8 → Entry
  | none => .plain resolution
  | some owner => .aliased resolution owner

/-- The recorded owners are the first producers among the bytes entered so far. -/
def Tracks (owners : Owners) (entered : List UInt8) : Prop :=
  ∀ mnemonic, owners.lookup mnemonic = firstOf resolve entered mnemonic

theorem tracks_nil : Tracks resolve [] [] :=
  fun _ => rfl

variable {resolve} {owners : Owners} {entered : List UInt8}

theorem firstOf_append (bytes others : List UInt8) (mnemonic : String) :
    firstOf resolve (bytes ++ others) mnemonic =
      (firstOf resolve bytes mnemonic).or (firstOf resolve others mnemonic) :=
  List.find?_append

theorem firstOf_singleton (byte : UInt8) (mnemonic : String) :
    firstOf resolve [byte] mnemonic =
      if produced? resolve byte = some mnemonic then some byte else none := by
  by_cases same : produced? resolve byte = some mnemonic <;> simp [firstOf, same]

/-- Entering a byte settles it against the first producers before it. -/
theorem place_fst (tracks : Tracks resolve owners entered) (byte : UInt8) :
    (Entry.place owners byte (resolve byte)).1 =
      settled (resolve byte) (rival? resolve entered byte) := by
  unfold Entry.place rival? produced?
  cases (resolve byte).instruction.mnemonic? with
  | none => simp [settled]
  | some mnemonic =>
      simp only [tracks mnemonic, Option.bind_some]
      cases firstOf resolve entered mnemonic with
      | none => simp [settled]
      | some owner =>
          by_cases composed : (resolve byte).instruction.isComposed = true <;>
            simp [composed, settled]

/-- Entering a byte keeps track of the first producers. -/
theorem tracks_place (tracks : Tracks resolve owners entered) (byte : UInt8) :
    Tracks resolve (Entry.place owners byte (resolve byte)).2 (entered ++ [byte]) := by
  intro wanted
  rw [firstOf_append, firstOf_singleton, ← tracks wanted]
  unfold Entry.place produced?
  cases (resolve byte).instruction.mnemonic? with
  | none => simp
  | some mnemonic =>
      cases known : owners.lookup mnemonic with
      | none =>
          by_cases same : mnemonic = wanted
          · subst same
            simp [known]
          · have other : (wanted == mnemonic) = false := by simpa using Ne.symm same
            simp [known, same, List.lookup_cons, other]
      | some owner =>
          have unchanged : (if (resolve byte).instruction.isComposed = true then
              (Entry.aliased (resolve byte) owner, owners)
            else (Entry.plain (resolve byte), owners)).2 = owners := by
            split <;> rfl
          by_cases same : mnemonic = wanted
          · subst same
            simp [unchanged, known]
          · simp [known, unchanged, same]

theorem tracks_scan (tracks : Tracks resolve owners entered) (bytes : List UInt8) :
    Tracks resolve (Entry.scan resolve owners bytes).2 (entered ++ bytes) := by
  induction bytes generalizing owners entered with
  | nil => simpa [Entry.scan] using tracks
  | cons byte rest ih =>
      have later := ih (tracks_place tracks byte)
      rw [List.append_assoc] at later
      exact later

/-- Each byte of a list is settled against the first producers before it. -/
theorem scan_getElem? (tracks : Tracks resolve owners entered) (before : List UInt8)
    (byte : UInt8) (after : List UInt8) :
    (Entry.scan resolve owners (before ++ byte :: after)).1[before.length]? =
      some (settled (resolve byte) (rival? resolve (entered ++ before) byte)) := by
  induction before generalizing owners entered with
  | nil => simp [Entry.scan, place_fst tracks]
  | cons first rest ih =>
      have later := ih (tracks_place tracks first)
      rw [List.append_assoc] at later
      exact later

/-! ## The bytes below a bound -/

def below (bound : Nat) : List UInt8 :=
  (List.range bound).map UInt8.ofNat

theorem all_eq_below : Byte.all = below 256 :=
  rfl

theorem length_below (bound : Nat) : (below bound).length = bound := by
  simp [below]

/-- The bytes are those below a given one, that one, and the rest. -/
theorem exists_all_eq (byte : UInt8) :
    ∃ after, Byte.all = below byte.toNat ++ byte :: after := by
  have total : byte.toNat + (255 - byte.toNat + 1) = 256 := by
    have bound := byte.toNat_lt
    omega
  refine ⟨(List.range' (byte.toNat + 1) (255 - byte.toNat)).map UInt8.ofNat, ?_⟩
  calc
    Byte.all = (List.range' 0 (byte.toNat + (255 - byte.toNat + 1))).map UInt8.ofNat := by
      rw [total, ← List.range_eq_range', Byte.all]
    _ = below byte.toNat ++
        (List.range' byte.toNat (255 - byte.toNat + 1)).map UInt8.ofNat := by
      rw [← List.range'_append_1, List.map_append, Nat.zero_add, below, List.range_eq_range']
    _ = _ := by
      rw [List.range'_succ, List.map_cons, UInt8.ofNat_toNat]

/-- The first producer below a bound is the owner, if it lies there. -/
theorem firstOf_below {bound : Nat} (small : bound ≤ 256) {mnemonic : String} {byte : UInt8} :
    firstOf resolve (below bound) mnemonic = some byte ↔
      byte.toNat < bound ∧ IsOwner resolve mnemonic byte := by
  simp only [firstOf, below, List.find?_map, Option.map_eq_some_iff, List.find?_range_eq_some,
    Function.comp_apply, beq_iff_eq, List.mem_range, IsOwner, Bool.not_eq_true',
    beq_eq_false_iff_ne]
  constructor
  · rintro ⟨place, ⟨found, inside, lower⟩, rfl⟩
    have value : (UInt8.ofNat place).toNat = place :=
      UInt8.toNat_ofNat_of_lt' (show place < 256 by omega)
    refine ⟨by omega, found, ?_⟩
    intro other less
    have under := UInt8.lt_iff_toNat_lt.mp less
    have missed := lower other.toNat (by omega)
    rwa [UInt8.ofNat_toNat] at missed
  · rintro ⟨inside, found, lower⟩
    refine ⟨byte.toNat, ⟨?_, inside, ?_⟩, UInt8.ofNat_toNat⟩
    · rwa [UInt8.ofNat_toNat]
    · intro place under
      have value : (UInt8.ofNat place).toNat = place :=
        UInt8.toNat_ofNat_of_lt' (show place < 256 by omega)
      exact lower _ (UInt8.lt_iff_toNat_lt.mpr (value.symm ▸ under))

/-! ## The finished table -/

/-- Each entry is settled against the first producers among the lower bytes. -/
theorem entry_build (byte : UInt8) :
    (Table.build resolve).entry byte =
      settled (resolve byte) (rival? resolve (below byte.toNat) byte) := by
  obtain ⟨after, whole⟩ := exists_all_eq byte
  have found := scan_getElem? (tracks_nil resolve) (below byte.toNat) byte after
  rw [← whole, length_below, List.nil_append] at found
  obtain ⟨inside, entry⟩ := List.getElem?_eq_some_iff.mp found
  rw [← entry, Table.entry, Table.build]
  simp

/-- In the end a mnemonic is found at its first producer among all bytes. -/
theorem find?_build (mnemonic : String) :
    (Table.build resolve).find? mnemonic = firstOf resolve Byte.all mnemonic := by
  have tracks := tracks_scan (tracks_nil resolve) Byte.all mnemonic
  rw [List.nil_append] at tracks
  simp only [Table.find?, Table.build, tracks]

theorem find?_build_eq_some_iff {mnemonic : String} {byte : UInt8} :
    (Table.build resolve).find? mnemonic = some byte ↔ IsOwner resolve mnemonic byte := by
  rw [find?_build, all_eq_below, firstOf_below (Nat.le_refl 256)]
  exact and_iff_right byte.toNat_lt

theorem find?_build_eq_none_iff {mnemonic : String} :
    (Table.build resolve).find? mnemonic = none ↔
      ∀ byte, produced? resolve byte ≠ some mnemonic := by
  simp [find?_build, firstOf]

/-- A mnemonic that some byte produces has an owner, which does not lie above that byte. -/
theorem exists_isOwner {mnemonic : String} {byte : UInt8}
    (produces : produced? resolve byte = some mnemonic) :
    ∃ owner ≤ byte, IsOwner resolve mnemonic owner := by
  cases found : (Table.build resolve).find? mnemonic with
  | none => exact absurd produces (find?_build_eq_none_iff.mp found byte)
  | some owner =>
      have owns := find?_build_eq_some_iff.mp found
      refine ⟨owner, UInt8.not_lt.mp ?_, owns⟩
      intro less
      exact owns.2 byte less produces

theorem aliasOf?_build (byte : UInt8) :
    (Table.build resolve).aliasOf? byte = rival? resolve (below byte.toNat) byte := by
  rw [Table.aliasOf?, entry_build]
  cases rival? resolve (below byte.toNat) byte <;> rfl

/-- The aliases of an owner are the composing bytes above it that produce its mnemonic. -/
theorem aliasOf?_build_eq_some_iff {byte owner : UInt8} :
    (Table.build resolve).aliasOf? byte = some owner ↔
      (resolve byte).instruction.isComposed = true ∧ owner < byte ∧
        ∃ mnemonic, produced? resolve byte = some mnemonic ∧ IsOwner resolve mnemonic owner := by
  have inside : byte.toNat ≤ 256 := Nat.le_of_lt byte.toNat_lt
  rw [aliasOf?_build, rival?, UInt8.lt_iff_toNat_lt]
  by_cases composed : (resolve byte).instruction.isComposed = true
  · simp only [composed, if_true, Option.bind_eq_some_iff, firstOf_below inside, true_and]
    constructor
    · rintro ⟨mnemonic, produces, less, owns⟩
      exact ⟨less, mnemonic, produces, owns⟩
    · rintro ⟨less, mnemonic, produces, owns⟩
      exact ⟨mnemonic, produces, less, owns⟩
  · simp [composed]

/-- A byte that is no alias keeps what the decoder made of it. -/
theorem resolution_build_of_not_alias {byte : UInt8}
    (kept : (Table.build resolve).aliasOf? byte = none) :
    (Table.build resolve).resolution byte = resolve byte := by
  rw [aliasOf?_build] at kept
  rw [Table.resolution, entry_build, kept]
  rfl

/-- An alias loses its instruction and nothing else. -/
theorem resolution_build_of_alias {byte owner : UInt8}
    (shadowed : (Table.build resolve).aliasOf? byte = some owner) :
    (Table.build resolve).resolution byte = { resolve byte with instruction := .undefined } := by
  rw [aliasOf?_build] at shadowed
  rw [Table.resolution, entry_build, shadowed]
  rfl

theorem instruction_of_alias {byte owner : UInt8}
    (shadowed : (Table.build resolve).aliasOf? byte = some owner) :
    (Table.build resolve).instruction byte = .undefined := by
  rw [Table.instruction, resolution_build_of_alias shadowed]

theorem instruction_of_not_alias {byte : UInt8}
    (kept : (Table.build resolve).aliasOf? byte = none) :
    (Table.build resolve).instruction byte = (resolve byte).instruction := by
  rw [Table.instruction, resolution_build_of_not_alias kept]

/-- A byte with a mnemonic in the end is no alias, and has it from the decoder. -/
theorem of_mnemonic? {byte : UInt8} {mnemonic : String}
    (named : ((Table.build resolve).instruction byte).mnemonic? = some mnemonic) :
    (Table.build resolve).aliasOf? byte = none ∧ produced? resolve byte = some mnemonic := by
  cases found : (Table.build resolve).aliasOf? byte with
  | some owner =>
      rw [instruction_of_alias found] at named
      cases named
  | none =>
      rw [instruction_of_not_alias found] at named
      exact ⟨rfl, named⟩

/-- Filling a table changes nothing of a resolution but its instruction. -/
theorem resolution_build (byte : UInt8) :
    (Table.build resolve).resolution byte =
      { resolve byte with instruction := (Table.build resolve).instruction byte } := by
  unfold Table.instruction
  cases found : (Table.build resolve).aliasOf? byte with
  | none => rw [resolution_build_of_not_alias found]
  | some owner => rw [resolution_build_of_alias found]

theorem byte_resolution_build (byte : UInt8) :
    ((Table.build resolve).resolution byte).byte = (resolve byte).byte := by
  rw [resolution_build]

theorem rule_resolution_build (byte : UInt8) :
    ((Table.build resolve).resolution byte).rule = (resolve byte).rule := by
  rw [resolution_build]

theorem IsOwner.aliasOf? {mnemonic : String} {owner : UInt8}
    (owns : IsOwner resolve mnemonic owner) : (Table.build resolve).aliasOf? owner = none := by
  cases found : (Table.build resolve).aliasOf? owner with
  | none => rfl
  | some other =>
      obtain ⟨_, less, shared, produces, otherOwns⟩ := aliasOf?_build_eq_some_iff.mp found
      cases owns.1.symm.trans produces
      exact absurd otherOwns.1 (owns.2 other less)

theorem IsOwner.instruction {mnemonic : String} {owner : UInt8}
    (owns : IsOwner resolve mnemonic owner) :
    (Table.build resolve).instruction owner = (resolve owner).instruction :=
  instruction_of_not_alias owns.aliasOf?

/-! ## Homes -/

/-- Each producer of a mnemonic has a home, which is no higher and produces the mnemonic too; all
producers of one mnemonic have the same home. -/
structure IsHome (resolve : UInt8 → Resolution) (home : UInt8 → UInt8) : Prop where
  le : ∀ byte, home byte ≤ byte
  produced : ∀ {byte mnemonic}, produced? resolve byte = some mnemonic →
    produced? resolve (home byte) = some mnemonic
  shared : ∀ {first second mnemonic}, produced? resolve first = some mnemonic →
    produced? resolve second = some mnemonic → home first = home second

namespace IsHome

variable {home : UInt8 → UInt8}

/-- The owners are the producers that are at home. -/
theorem isOwner_iff (homes : IsHome resolve home) {mnemonic : String} {byte : UInt8} :
    IsOwner resolve mnemonic byte ↔
      produced? resolve byte = some mnemonic ∧ home byte = byte := by
  constructor
  · rintro ⟨produces, lowest⟩
    refine ⟨produces, UInt8.le_antisymm (homes.le byte) (UInt8.not_lt.mp ?_)⟩
    intro less
    exact lowest _ less (homes.produced produces)
  · rintro ⟨produces, settled⟩
    refine ⟨produces, ?_⟩
    intro lower less lowerProduces
    have moved : home lower = byte := (homes.shared lowerProduces produces).trans settled
    exact UInt8.not_lt.mpr (moved ▸ homes.le lower) less

theorem home_home (homes : IsHome resolve home) {mnemonic : String} {byte : UInt8}
    (produces : produced? resolve byte = some mnemonic) : home (home byte) = home byte :=
  homes.shared (homes.produced produces) produces

/-- The aliases are the composing bytes that are not at home, and point there. -/
theorem aliasOf?_build_eq_some_iff (homes : IsHome resolve home) {byte owner : UInt8} :
    (Table.build resolve).aliasOf? byte = some owner ↔
      (resolve byte).instruction.isComposed = true ∧ home byte ≠ byte ∧ owner = home byte := by
  rw [Ownership.aliasOf?_build_eq_some_iff]
  constructor
  · rintro ⟨composed, less, mnemonic, produces, owns⟩
    obtain ⟨ownerProduces, settled⟩ := homes.isOwner_iff.mp owns
    have same : home byte = owner := (homes.shared produces ownerProduces).trans settled
    exact ⟨composed, fun stays => UInt8.ne_of_lt less (same.symm.trans stays), same.symm⟩
  · rintro ⟨composed, away, rfl⟩
    refine ⟨composed, UInt8.lt_of_le_of_ne (homes.le byte) away, ?_⟩
    cases outcome : (resolve byte).instruction with
    | undefined => simp [outcome, Instruction.isComposed] at composed
    | atomic name => simp [outcome, Instruction.isComposed] at composed
    | composed base modes =>
        have produces : produced? resolve byte = some (base ++ modes.suffix) := by
          rw [produced?, outcome]
          rfl
        exact ⟨_, produces, homes.isOwner_iff.mpr
          ⟨homes.produced produces, homes.home_home produces⟩⟩

/-- A byte that is at home, if it composes anything, keeps what the decoder made of it. -/
theorem build_of_settled (homes : IsHome resolve home) {byte : UInt8}
    (settled : (resolve byte).instruction.isComposed = true → home byte = byte) :
    (Table.build resolve).instruction byte = (resolve byte).instruction ∧
      (Table.build resolve).aliasOf? byte = none := by
  have kept : (Table.build resolve).aliasOf? byte = none := by
    rw [Option.eq_none_iff_forall_ne_some]
    intro owner found
    obtain ⟨composed, away, _⟩ := homes.aliasOf?_build_eq_some_iff.mp found
    exact away (settled composed)
  exact ⟨instruction_of_not_alias kept, kept⟩

/-- A byte that composes something away from its home becomes an alias of it. -/
theorem build_of_away (homes : IsHome resolve home) {byte : UInt8}
    (composed : (resolve byte).instruction.isComposed = true) (away : home byte ≠ byte) :
    (Table.build resolve).instruction byte = .undefined ∧
      (Table.build resolve).aliasOf? byte = some (home byte) := by
  have found := homes.aliasOf?_build_eq_some_iff.mpr ⟨composed, away, rfl⟩
  exact ⟨instruction_of_alias found, found⟩

end IsHome

/-! ## The listed entries -/

theorem toList_entries (table : Table) : table.entries.toList = Byte.all.map table.entry := by
  apply List.ext_getElem
  · simp
  · intro place inside _
    have small : place < 256 := by simpa using inside
    simp [Byte.all, Table.entry, Nat.mod_eq_of_lt small]

theorem toList_eq_map (table : Table) :
    table.toList =
      Byte.all.map fun byte => ((table.resolution byte).byte, table.instruction byte) := by
  rw [Table.toList, toList_entries, List.map_map]
  rfl

/-- The entries are listed in the order of the bytes. -/
theorem toList_map_instruction (table : Table) :
    (table.toList.map fun entry => entry.2) = Byte.all.map table.instruction := by
  rw [toList_eq_map, List.map_map]
  rfl

theorem toList_map_mnemonic? (table : Table) :
    (table.toList.map fun entry => entry.2.mnemonic?) =
      Byte.all.map fun byte => (table.instruction byte).mnemonic? := by
  have listed := congrArg (List.map Instruction.mnemonic?) (toList_map_instruction table)
  rwa [List.map_map, List.map_map] at listed

theorem mem_defined_iff {table : Table} {byte : UInt8} {mnemonic : String} :
    (byte, mnemonic) ∈ table.defined ↔
      ∃ instruction, (byte, instruction) ∈ table.toList ∧
        instruction.mnemonic? = some mnemonic := by
  unfold Table.defined
  rw [List.mem_filterMap]
  constructor
  · rintro ⟨⟨_, instruction⟩, inside, listed⟩
    obtain ⟨_, named, same⟩ := Option.map_eq_some_iff.mp listed
    cases same
    exact ⟨instruction, inside, named⟩
  · rintro ⟨instruction, inside, named⟩
    exact ⟨(byte, instruction), inside, by simp [named]⟩

/-- The listed mnemonics are those that some byte has in the end. -/
theorem exists_mem_defined_iff {table : Table} {mnemonic : String} :
    (∃ entry ∈ table.defined, entry.2 = mnemonic) ↔
      ∃ byte, (table.instruction byte).mnemonic? = some mnemonic := by
  have listed : some mnemonic ∈ (table.toList.map fun entry => entry.2.mnemonic?) ↔
      some mnemonic ∈ Byte.all.map fun byte => (table.instruction byte).mnemonic? := by
    rw [toList_map_mnemonic?]
  simp only [List.mem_map, Byte.mem_all, true_and] at listed
  rw [← listed]
  constructor
  · rintro ⟨⟨byte, _⟩, member, rfl⟩
    obtain ⟨instruction, inside, named⟩ := mem_defined_iff.mp member
    exact ⟨(byte, instruction), inside, named⟩
  · rintro ⟨⟨byte, instruction⟩, inside, named⟩
    exact ⟨(byte, mnemonic), mem_defined_iff.mpr ⟨instruction, inside, named⟩, rfl⟩

/-- What holds of the listed mnemonics holds of the mnemonic of each byte. -/
theorem forall_mnemonic_of_defined {table : Table} {Good : String → Prop}
    (each : ∀ entry ∈ table.defined, Good entry.2) :
    ∀ byte, ∀ mnemonic ∈ (table.instruction byte).mnemonic?, Good mnemonic := by
  intro byte mnemonic named
  obtain ⟨entry, member, rfl⟩ := exists_mem_defined_iff.mpr ⟨byte, named⟩
  exact each entry member

/-- Filling a table neither adds nor drops a mnemonic. -/
theorem exists_mem_defined_build_iff {mnemonic : String} :
    (∃ entry ∈ (Table.build resolve).defined, entry.2 = mnemonic) ↔
      ∃ byte, produced? resolve byte = some mnemonic := by
  rw [exists_mem_defined_iff]
  constructor
  · rintro ⟨byte, named⟩
    exact ⟨byte, (of_mnemonic? named).2⟩
  · rintro ⟨byte, produces⟩
    obtain ⟨owner, _, owns⟩ := exists_isOwner produces
    exact ⟨owner, by rw [owns.instruction]; exact owns.1⟩

/-! ## Tables in order -/

/-- Each entry is the one of the byte in whose place it stands. -/
def InOrder (table : Table) : Prop :=
  ∀ byte, (table.resolution byte).byte = byte

/-- A table is in order if the decoder hands each byte on. -/
theorem inOrder_build (carries : ∀ byte, (resolve byte).byte = byte) :
    InOrder (Table.build resolve) :=
  fun byte => (byte_resolution_build byte).trans (carries byte)

theorem pairwise_all : Byte.all.Pairwise fun first second => first < second := by
  rw [Byte.all, List.pairwise_map]
  refine List.pairwise_lt_range.imp_of_mem fun {first second} _ inside less => ?_
  have bound := List.mem_range.mp inside
  rw [UInt8.lt_iff_toNat_lt, UInt8.toNat_ofNat_of_lt' (Nat.lt_trans less bound),
    UInt8.toNat_ofNat_of_lt' bound]
  exact less

namespace InOrder

variable {table : Table}

theorem toList_eq (ordered : InOrder table) :
    table.toList = Byte.all.map fun byte => (byte, table.instruction byte) := by
  rw [toList_eq_map]
  exact List.map_congr_left fun byte _ => by rw [ordered byte]

theorem mem_defined_iff (ordered : InOrder table) {byte : UInt8} {mnemonic : String} :
    (byte, mnemonic) ∈ table.defined ↔
      (table.instruction byte).mnemonic? = some mnemonic := by
  rw [Ownership.mem_defined_iff, ordered.toList_eq]
  simp only [List.mem_map, Byte.mem_all, true_and, Prod.mk.injEq]
  constructor
  · rintro ⟨_, ⟨_, rfl, rfl⟩, named⟩
    exact named
  · intro named
    exact ⟨_, ⟨byte, rfl, rfl⟩, named⟩

/-- The defined bytes are listed from the lowest to the highest. -/
theorem pairwise_defined (ordered : InOrder table) :
    (table.defined.map Prod.fst).Pairwise fun first second => first < second := by
  rw [List.pairwise_map, Table.defined, ordered.toList_eq, List.filterMap_map]
  refine pairwise_all.filterMap _ fun first second less entry listed other otherListed => ?_
  obtain ⟨_, _, rfl⟩ := Option.map_eq_some_iff.mp listed
  obtain ⟨_, _, rfl⟩ := Option.map_eq_some_iff.mp otherListed
  exact less

theorem defined_eq (ordered : InOrder table) :
    table.defined = Byte.all.filterMap fun byte =>
      (table.instruction byte).mnemonic?.map fun mnemonic => (byte, mnemonic) := by
  rw [Table.defined, ordered.toList_eq, List.filterMap_map]
  rfl

/-- The bytes that are not undefined, taken with their mnemonics, are the defined ones. -/
theorem map_filter_isDefined (ordered : InOrder table) :
    (Byte.all.filter fun byte => (table.instruction byte).isDefined).map
        (fun byte => (byte, (table.instruction byte).mnemonic?)) =
      table.defined.map fun entry => (entry.1, some entry.2) := by
  rw [ordered.defined_eq]
  induction Byte.all with
  | nil => rfl
  | cons byte rest ih =>
      have defined := Instruction.isSome_mnemonic? (table.instruction byte)
      rw [List.filter_cons, List.filterMap_cons]
      cases named : (table.instruction byte).mnemonic? with
      | none =>
          rw [named] at defined
          simpa [← defined] using ih
      | some mnemonic =>
          rw [named] at defined
          simpa [← defined, named] using ih

end InOrder

/-- What belongs to each byte is known from the list of it. -/
theorem map_all_inj {Value : Type} {first second : UInt8 → Value} :
    Byte.all.map first = Byte.all.map second ↔ ∀ byte, first byte = second byte := by
  rw [List.map_inj_left]
  exact ⟨fun same byte => same byte (Byte.mem_all byte), fun same byte _ => same byte⟩

end Opcodes.Proofs.Ownership
