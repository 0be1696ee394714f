import Mathlib.Data.List.DropRight
import Mathlib.Data.List.Sort
import Mathlib.Data.List.Sublists
import Opcodes.Proofs.Layout

/-!
# Composed mnemonics taken apart

A mnemonic is cut before its longest tail of mode letters. Where the base does
not end in such a letter itself, the cut gives back the base in front and the
modes behind, so the mnemonic determines the instruction. The mnemonics of such
instructions are the texts whose tail has its letters in the order of the
suffix, each at most once.
-/

namespace Opcodes.Proofs.Composition

open Layout

/-! ## The cut -/

/-- The tail is the longest one that is made of mode letters only. -/
structure IsCut (text front tail : List Char) : Prop where
  whole : front ++ tail = text
  letters : ∀ character ∈ tail, isLetter character = true
  longest : ∀ before after, before ++ after = text →
    (∀ character ∈ after, isLetter character = true) → after.length ≤ tail.length

namespace IsCut

variable {text front tail : List Char}

/-- Letters that reach to the end of a text leave no base but the one before the cut. -/
theorem of_base (ends : ∀ character ∈ front.getLast?, isLetter character = false)
    (letters : ∀ character ∈ tail, isLetter character = true) :
    IsCut (front ++ tail) front tail where
  whole := rfl
  letters := letters
  longest before after same all := by
    rcases List.append_eq_append_iff.mp same with ⟨inner, split, rfl⟩ | ⟨inner, rfl, rfl⟩
    · -- The letters begin within the front, so its last character is one unless they miss it.
      cases final : inner.getLast? with
      | none => simp [List.getLast?_eq_none_iff.mp final]
      | some character =>
          have last : character ∈ front.getLast? := by
            rw [split, List.getLast?_append, final]
            rfl
          have letter := all character (List.mem_append_left tail (List.mem_of_getLast? final))
          rw [ends character last] at letter
          cases letter
    · simp

theorem unique (cut : IsCut text front tail) {front' tail' : List Char}
    (cut' : IsCut text front' tail') : front' = front ∧ tail' = tail := by
  have lengths : tail'.length = tail.length :=
    Nat.le_antisymm (cut.longest front' tail' cut'.whole cut'.letters)
      (cut'.longest front tail cut.whole cut.letters)
  exact List.append_inj' (cut'.whole.trans cut.whole.symm) lengths

/-- What stands in front of a cut does not end in a letter. -/
theorem isBase (cut : IsCut text front tail) : IsBase (String.ofList front) := by
  intro character last
  rw [String.toList_ofList] at last
  obtain ⟨before, rfl⟩ := List.getLast?_eq_some_iff.mp last
  refine Bool.eq_false_iff.mpr fun letter => ?_
  -- Otherwise the tail could begin with that letter.
  have longer := cut.longest before (character :: tail) (by rw [← cut.whole]; simp)
    (List.forall_mem_cons.mpr ⟨letter, cut.letters⟩)
  exact Nat.not_succ_le_self _ longer

end IsCut

theorem exists_isCut (text : List Char) : ∃ front tail, IsCut text front tail := by
  have letters : ∀ character ∈ text.rtakeWhile isLetter, isLetter character = true :=
    fun character member => List.mem_rtakeWhile_imp member
  have ends : ∀ character ∈ (text.rdropWhile isLetter).getLast?,
      isLetter character = false := by
    intro character last
    rw [List.rdropWhile, List.getLast?_reverse, Option.mem_def] at last
    have other := List.head?_dropWhile_not isLetter text.reverse
    simpa [last] using other
  have cut := IsCut.of_base ends letters
  rw [List.rdropWhile_append_rtakeWhile] at cut
  exact ⟨_, _, cut⟩

/-! ## Tails -/

/-- One letter stands before another in a suffix. -/
inductive Precedes : Char → Char → Prop where
  | keepReturn : Precedes 'k' 'r'
  | keepWide : Precedes 'k' '2'
  | returnWide : Precedes 'r' '2'

theorem Precedes.asymm {first second : Char} (before : Precedes first second) :
    ¬ Precedes second first := by
  cases before <;> intro after <;> cases after

/-- The letters in the order of the suffix. -/
def alphabet : List Char :=
  Mode.letters.map fun entry => entry.2

theorem pairwise_alphabet : alphabet.Pairwise Precedes := by
  simp [alphabet, Mode.letters, Precedes.keepReturn, Precedes.keepWide, Precedes.returnWide]

theorem isLetter_iff {character : Char} : isLetter character = true ↔ character ∈ alphabet := by
  simp [isLetter, alphabet]

/-- The letters stand in the order of the suffix exactly if they are some of its letters. -/
theorem pairwise_iff_sublist {tail : List Char}
    (letters : ∀ character ∈ tail, isLetter character = true) :
    tail.Pairwise Precedes ↔ tail.Sublist alphabet := by
  constructor
  · intro ordered
    have distinct : tail.Nodup :=
      ordered.imp fun {first second} before same => (same ▸ before).asymm (same ▸ before)
    have within : tail ⊆ alphabet :=
      fun character member => isLetter_iff.mp (letters character member)
    have antisymm : Std.Antisymm Precedes :=
      ⟨fun _ _ before after => absurd after before.asymm⟩
    exact List.sublist_of_subperm_of_pairwise (List.subperm_of_subset distinct within) ordered
      pairwise_alphabet
  · exact fun sub => pairwise_alphabet.sublist sub

/-- The modes whose letters are among the characters. -/
def spelled (tail : List Char) : Modes :=
  Modes.ofByte (Flag.union ((Mode.letters.filter fun entry => tail.contains entry.2).map
    fun entry => entry.1))

theorem spelled_suffix (modes : Modes) : spelled modes.suffix.toList = modes := by
  have each : ∀ keep ret wide,
      spelled (letters keep ret wide).toList = Layout.modes keep ret wide := by
    decide
  obtain ⟨keep, ret, wide, rfl⟩ := exists_modes_eq modes
  rw [suffix_modes, each]

theorem sublist_suffix (modes : Modes) : modes.suffix.toList.Sublist alphabet := by
  rw [Modes.suffix, String.toList_ofList]
  exact List.filter_sublist.map _

theorem suffix_spelled {tail : List Char} (sub : tail.Sublist alphabet) :
    (spelled tail).suffix.toList = tail := by
  have each : ∀ chosen ∈ alphabet.sublists, (spelled chosen).suffix.toList = chosen := by
    decide
  exact each tail (List.mem_sublists.mpr sub)

/-! ## Instructions -/

theorem isCut_mnemonic {base : String} (ends : IsBase base) (modes : Modes) :
    IsCut (base ++ modes.suffix).toList base.toList modes.suffix.toList := by
  rw [String.toList_append]
  exact .of_base ends (isLetter_suffix modes)

/-- A text that is cut behind ordered letters is the mnemonic of what the cut gives. -/
theorem append_suffix_of_isCut {text : String} {front tail : List Char}
    (cut : IsCut text.toList front tail) (ordered : tail.Pairwise Precedes) :
    String.ofList front ++ (spelled tail).suffix = text := by
  have sub := (pairwise_iff_sublist cut.letters).mp ordered
  rw [String.ext_iff, String.toList_append, String.toList_ofList, suffix_spelled sub, cut.whole]

/-- Every text has one cut. That of a composed mnemonic gives back a base which does not end in a
letter, and the modes behind it, so that instructions with such bases are told apart by their
texts. The texts that they have are those with an ordered tail. -/
theorem mnemonic_determines_base_and_modes :
    (∀ text, ∃! cut : List Char × List Char, IsCut text cut.1 cut.2) ∧
    (∀ base modes, IsBase base →
      ∃ mnemonic, (Instruction.composed base modes).mnemonic? = some mnemonic ∧
        ∃ tail, IsCut mnemonic.toList base.toList tail ∧ spelled tail = modes) ∧
    (∀ base modes base' modes', IsBase base → IsBase base' →
      (Instruction.composed base modes = .composed base' modes' ↔
        (Instruction.composed base modes).text = (Instruction.composed base' modes').text)) ∧
    ∀ text : String,
      (∃ base modes, IsBase base ∧
          (Instruction.composed base modes).mnemonic? = some text) ↔
        ∃ front tail, IsCut text.toList front tail ∧ tail.Pairwise Precedes := by
  refine ⟨fun text => ?_, fun base modes ends => ?_, fun base modes base' modes' ends ends' => ?_,
    fun text => ⟨?_, ?_⟩⟩
  · obtain ⟨front, tail, cut⟩ := exists_isCut text
    exact ⟨(front, tail), cut, fun other cut' => Prod.ext_iff.mpr (cut.unique cut')⟩
  · exact ⟨_, rfl, _, isCut_mnemonic ends modes, spelled_suffix modes⟩
  · refine ⟨congrArg Instruction.text, fun same => ?_⟩
    obtain ⟨rfl, rfl⟩ := eq_of_append_suffix ends ends' same
    rfl
  · rintro ⟨base, modes, ends, named⟩
    cases named
    exact ⟨_, _, isCut_mnemonic ends modes,
      (pairwise_iff_sublist (isLetter_suffix modes)).mpr (sublist_suffix modes)⟩
  · rintro ⟨front, tail, cut, ordered⟩
    exact ⟨_, _, cut.isBase, congrArg some (append_suffix_of_isCut cut ordered)⟩

/-- One text is cut into a base and modes, and another has its letters in the wrong order. -/
theorem accented_mnemonic_determines_base_and_modes :
    IsBase "É" ∧
      (∃ tail, IsCut "Ék2".toList ['É'] tail ∧ spelled tail = Layout.modes true false true) ∧
      ¬ ∃ base modes, IsBase base ∧ (Instruction.composed base modes).mnemonic? = some "É2k" := by
  obtain ⟨unique, reads, _, texts⟩ := mnemonic_determines_base_and_modes
  have ends : IsBase "É" := by decide
  refine ⟨ends, ?_, fun composed => ?_⟩
  · obtain ⟨mnemonic, named, read⟩ := reads "É" (Layout.modes true false true) ends
    cases named
    exact read
  · obtain ⟨front, tail, cut, ordered⟩ := (texts "É2k").mp composed
    have letters : ∀ character ∈ ['2', 'k'], isLetter character = true :=
      List.forall_mem_cons.mpr ⟨rfl, List.forall_mem_singleton.mpr rfl⟩
    have swapped : IsCut (['É'] ++ ['2', 'k']) ['É'] ['2', 'k'] :=
      .of_base (fun _ last => Option.mem_some_iff.mp last ▸ rfl) letters
    obtain ⟨rfl, rfl⟩ := swapped.unique cut
    cases List.rel_of_pairwise_cons ordered List.mem_cons_self

-- Among all bases, a mnemonic can be composed in two ways.
example : (Instruction.composed "A" (Layout.modes true false false)).text =
    (Instruction.composed "Ak" (Layout.modes false false false)).text := by
  decide

end Opcodes.Proofs.Composition
