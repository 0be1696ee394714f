import Opcodes.Avc2
import Opcodes.Listing.Lookup
import Opcodes.Proofs.FlagRuns
import Opcodes.Proofs.HexText

/-!
# The text of a rule

A rule is told by its label and, in brackets behind it, its pattern. The text
of a pattern holds no opening bracket, so the last one of a text ends the
label, whatever the label is. The pieces of a pattern are of few lengths and
begin in different ways, so they can be told apart; of its masks only the modes
are told.
-/

namespace Opcodes.Proofs.RuleText

open FlagRuns HexText Listing Pattern

/-! ## Pieces of a pattern -/

/-- Texts whose first pieces are of one length have the same pieces. -/
theorem append_inj {first second rest rest' : String} (same : first ++ rest = second ++ rest')
    (aligned : first.length = second.length) : first = second ∧ rest = rest' := by
  rw [← String.toList_inj, String.toList_append, String.toList_append] at same
  rw [← String.length_toList, ← String.length_toList] at aligned
  obtain ⟨firsts, rests⟩ := List.append_inj same aligned
  exact ⟨String.toList_inj.mp firsts, String.toList_inj.mp rests⟩

theorem length_describe (modes : Modes) : modes.describe.length = 3 := by
  rw [← String.length_toList, Modes.describe, String.toList_ofList, List.length_map]
  rfl

/-- The letters and dashes of a set of modes tell all of its flags. -/
theorem describe_modes_injective : Function.Injective Modes.describe := by
  have lettered : ∀ flag ∈ Mode.flags, ∃ entry ∈ Mode.letters, entry.1 = flag := by
    simp [Mode.flags, Mode.letters]
  have undashed : ∀ entry ∈ Mode.letters, entry.2 ≠ '-' := by
    simp [Mode.letters]
  intro first second same
  rw [Modes.describe, Modes.describe, String.ofList_inj, List.map_inj_left] at same
  refine eq_of_has fun flag member => ?_
  obtain ⟨entry, known, rfl⟩ := lettered flag member
  have told := same entry known
  have letter := undashed entry known
  cases one : first.has entry.1 <;> cases two : second.has entry.1 <;>
    simp [one, two, letter, letter.symm] at told ⊢

/-- A mask names modes and nothing else. -/
def NamesModes (mask : UInt8) : Prop :=
  mask &&& Flag.union Mode.flags = mask

theorem NamesModes.eq {first second : UInt8} (modes : NamesModes first)
    (modes' : NamesModes second) (same : Modes.ofByte first = Modes.ofByte second) :
    first = second := by
  have bits := congrArg FlagSet.bits same
  rwa [Modes.ofByte, Modes.ofByte, FlagSet.bits_ofBits, FlagSet.bits_ofBits, modes, modes'] at bits

theorem length_modeClause (word : String) (mask : UInt8) :
    (modeClause word mask).length = if mask = 0 then 0 else word.length + 3 := by
  unfold modeClause
  split
  · rfl
  · rw [String.length_append, length_describe]

/-- A clause about modes tells its mask. -/
theorem NamesModes.eq_of_modeClause {first second : UInt8} (modes : NamesModes first)
    (modes' : NamesModes second) {word : String}
    (same : modeClause word first = modeClause word second) : first = second := by
  have lengths := congrArg String.length same
  rw [length_modeClause, length_modeClause] at lengths
  unfold modeClause at same
  by_cases none : first = 0 <;> by_cases none' : second = 0
  · rw [none, none']
  · simp [none, none'] at lengths
  · simp [none, none'] at lengths
  · rw [if_neg none, if_neg none', String.append_right_inj] at same
    exact modes.eq modes' (describe_modes_injective same)

/-- Two clauses, of different lengths, tell both masks. -/
theorem eq_of_modeClauses {require forbid require' forbid' : UInt8}
    (modes : NamesModes require ∧ NamesModes forbid)
    (modes' : NamesModes require' ∧ NamesModes forbid')
    (same : modeClause " with " require ++ modeClause " without " forbid =
      modeClause " with " require' ++ modeClause " without " forbid') :
    require = require' ∧ forbid = forbid' := by
  have lengths := congrArg String.length same
  have aligned : (modeClause " with " require).length =
      (modeClause " with " require').length := by
    have short : " with ".length = 6 := rfl
    have long : " without ".length = 9 := rfl
    simp only [String.length_append, length_modeClause, short, long] at lengths ⊢
    split_ifs at lengths ⊢ <;> omega
  obtain ⟨required, forbidden⟩ := append_inj same aligned
  exact ⟨modes.1.eq_of_modeClause modes'.1 required,
    modes.2.eq_of_modeClause modes'.2 forbidden⟩

/-! ## Patterns -/

/-- The masks of a pattern name modes and nothing else. -/
def OnlyModes : Pattern → Prop
  | .byte _ => True
  | .families _ _ require forbid => NamesModes require ∧ NamesModes forbid

theorem eq_of_marked {first second : Family} {rest rest' : String}
    (same : Text.Hex.marked first.toByte ++ rest = Text.Hex.marked second.toByte ++ rest') :
    first = second ∧ rest = rest' := by
  obtain ⟨digits, rests⟩ := append_inj same (by rw [length_marked, length_marked])
  exact ⟨Family.toByte_injective (marked_injective digits), rests⟩

theorem single_ne_range (rest rest' : String) : "family " ++ rest ≠ "families " ++ rest' := by
  intro same
  have letters := congrArg (fun text => text.toList[5]?) same
  simp at letters

/-- What begins with families tells which ones, and what follows. -/
theorem eq_of_familyClause {first last first' last' : Family} {rest rest' : String}
    (same : familyClause first last ++ rest = familyClause first' last' ++ rest') :
    first = first' ∧ last = last' ∧ rest = rest' := by
  unfold familyClause at same
  by_cases single : first = last <;> by_cases single' : first' = last'
  · simp only [if_pos single, if_pos single', String.append_assoc, String.append_right_inj] at same
    obtain ⟨equal, rests⟩ := eq_of_marked same
    exact ⟨equal, single.symm.trans (equal.trans single'), rests⟩
  · simp only [if_pos single, if_neg single', String.append_assoc] at same
    exact absurd same (single_ne_range _ _)
  · simp only [if_neg single, if_pos single', String.append_assoc] at same
    exact absurd same.symm (single_ne_range _ _)
  · simp only [if_neg single, if_neg single', String.append_assoc, String.append_right_inj] at same
    obtain ⟨firsts, behind⟩ := eq_of_marked same
    obtain ⟨lasts, rests⟩ := eq_of_marked ((String.append_right_inj _).mp behind)
    exact ⟨firsts, lasts, rests⟩

theorem describe_byte_ne (value : UInt8) (first last : Family) (require forbid : UInt8) :
    (Pattern.byte value).describe ≠ (Pattern.families first last require forbid).describe := by
  intro same
  have letters := congrArg (fun text => text.toList.head?) same
  by_cases single : first = last <;> simp [describe, familyClause, single] at letters

/-- A pattern whose masks only name modes is known from its text. -/
theorem eq_of_describe {first second : Pattern} (modes : OnlyModes first)
    (modes' : OnlyModes second) (same : first.describe = second.describe) : first = second := by
  cases first with
  | byte value =>
      cases second with
      | byte value' =>
          have digits := (String.append_right_inj _).mp same
          rw [marked_injective digits]
      | families => exact absurd same (describe_byte_ne _ _ _ _ _)
  | families first last require forbid =>
      cases second with
      | byte => exact absurd same.symm (describe_byte_ne _ _ _ _ _)
      | families first' last' require' forbid' =>
          rw [describe, describe, String.append_assoc, String.append_assoc] at same
          obtain ⟨rfl, rfl, clauses⟩ := eq_of_familyClause same
          obtain ⟨rfl, rfl⟩ := eq_of_modeClauses modes modes' clauses
          rfl

/-! ## Labels -/

theorem bracket_not_mem_modeClause {word : String} (free : '(' ∉ word.toList) (mask : UInt8) :
    '(' ∉ (modeClause word mask).toList := by
  have letters : ∀ entry ∈ Mode.letters, entry.2 ≠ '(' := by
    simp [Mode.letters]
  unfold modeClause
  split
  · simp
  · rw [String.toList_append, Modes.describe, String.toList_ofList, List.mem_append,
      List.mem_map]
    rintro (inside | ⟨entry, known, same⟩)
    · exact free inside
    · split at same
      · exact letters entry known same
      · cases same

theorem bracket_not_mem_describe (pattern : Pattern) : '(' ∉ pattern.describe.toList := by
  cases pattern with
  | byte value => simp [describe]
  | families first last require forbid =>
      have families : '(' ∉ (familyClause first last).toList := by
        unfold familyClause
        split <;> simp
      have required := bracket_not_mem_modeClause (by simp : '(' ∉ " with ".toList) require
      have forbidden := bracket_not_mem_modeClause (by simp : '(' ∉ " without ".toList) forbid
      simp [describe, families, required, forbidden]

/-- Nothing stands between two marks that are both the last one of a text. -/
theorem eq_nil_of_shifted {mark : Char} {inner behind behind' : List Char}
    (last : mark ∉ behind) (shifted : mark :: behind = inner ++ mark :: behind') :
    inner = [] ∧ behind = behind' := by
  cases inner with
  | nil => exact ⟨rfl, (List.cons.inj shifted).2⟩
  | cons first rest =>
      have later : behind = rest ++ mark :: behind' := (List.cons.inj shifted).2
      exact absurd (later ▸ List.mem_append_right rest List.mem_cons_self) last

/-- Texts that agree are the same before their last mark and behind it. -/
theorem eq_of_last_mark {mark : Char} {before before' behind behind' : List Char}
    (last : mark ∉ behind) (last' : mark ∉ behind')
    (same : before ++ mark :: behind = before' ++ mark :: behind') :
    before = before' ∧ behind = behind' := by
  rcases List.append_eq_append_iff.mp same with ⟨inner, rfl, shifted⟩ | ⟨inner, rfl, shifted⟩
  · obtain ⟨rfl, equal⟩ := eq_nil_of_shifted last shifted
    exact ⟨(List.append_nil before).symm, equal⟩
  · obtain ⟨rfl, equal⟩ := eq_nil_of_shifted last' shifted
    exact ⟨List.append_nil before', equal.symm⟩

theorem toList_describe (rule : Rule) :
    rule.describe.toList =
      (rule.label ++ " ").toList ++ '(' :: (rule.pattern.describe.toList ++ [')']) := by
  simp [Rule.describe]

/-- A rule is told by the label before its last bracket and the pattern behind it. -/
theorem describe_eq_iff {first second : Rule} (modes : OnlyModes first.pattern)
    (modes' : OnlyModes second.pattern) :
    first.describe = second.describe ↔
      first.label = second.label ∧ first.pattern = second.pattern := by
  constructor
  · intro same
    have free (pattern : Pattern) : '(' ∉ pattern.describe.toList ++ [')'] := by
      simp [bracket_not_mem_describe pattern]
    rw [← String.toList_inj, toList_describe, toList_describe] at same
    obtain ⟨labels, patterns⟩ := eq_of_last_mark (free _) (free _) same
    rw [String.toList_inj, String.append_left_inj] at labels
    rw [List.append_left_inj, String.toList_inj] at patterns
    exact ⟨labels, eq_of_describe modes modes' patterns⟩
  · rintro ⟨labels, patterns⟩
    rw [Rule.describe, Rule.describe, labels, patterns]

/-! ## Lines of a look-up -/

theorem ruleLine_some (rule : Rule) :
    Lookup.ruleLine (some rule) = "  rule    " ++ rule.describe :=
  rfl

/-- The text of a rule holds a bracket, so it is never that of the general way. -/
theorem ruleLine_some_ne_none (rule : Rule) :
    Lookup.ruleLine (some rule) ≠ Lookup.ruleLine none := by
  intro same
  have told : rule.describe = "general" := (String.append_right_inj _).mp same
  have bracket : '(' ∈ rule.describe.toList := by
    simp [Rule.describe]
  simp [told] at bracket

/-- Among rules whose masks only name modes, the text tells the label and the pattern, and so the
bytes that the pattern accepts. The line of a look-up tells them too, or that there was no rule. -/
theorem rules_are_told_apart {first second : Rule} (modes : OnlyModes first.pattern)
    (modes' : OnlyModes second.pattern) :
    (first.describe = second.describe ↔
        first.label = second.label ∧ first.pattern = second.pattern) ∧
      (first.describe = second.describe →
        ∀ byte, first.pattern.accepts byte = second.pattern.accepts byte) ∧
      (Lookup.ruleLine (some first) = Lookup.ruleLine (some second) →
        first.label = second.label ∧ first.pattern = second.pattern) ∧
      Lookup.ruleLine (some first) ≠ Lookup.ruleLine none := by
  have told := describe_eq_iff modes modes'
  refine ⟨told, fun same byte => ?_, fun same => ?_, ruleLine_some_ne_none first⟩
  · rw [(told.mp same).2]
  · rw [ruleLine_some, ruleLine_some, String.append_right_inj] at same
    exact told.mp same

theorem onlyModes_avc2 : ∀ rule ∈ Avc2.rules, OnlyModes rule.pattern := by
  have none : NamesModes 0 := UInt8.zero_and
  have keep : NamesModes Mode.keep.mask := rfl
  simp [Avc2.rules, OnlyModes, none, keep]

def interrupt : Rule :=
  ⟨"return from interrupt", .byte 0x83, .atomic "RTI"⟩

/-- A rule whose label is the text of another one. -/
def bracketed : Rule :=
  ⟨"return from interrupt (byte 0x83)", .families (.ofByte 0x03) (.ofByte 0x01) 0xa0 0x40,
    .undefined⟩

theorem bracketed_rule_is_told_apart :
    interrupt ∈ Avc2.rules ∧ OnlyModes bracketed.pattern ∧
      bracketed.label = interrupt.describe ∧ bracketed.describe ≠ interrupt.describe := by
  have listed : interrupt ∈ Avc2.rules := by
    simp [Avc2.rules, interrupt]
  have named : OnlyModes bracketed.pattern := ⟨rfl, rfl⟩
  obtain ⟨told, _⟩ := rules_are_told_apart named (onlyModes_avc2 interrupt listed)
  refine ⟨listed, named, by decide, fun same => ?_⟩
  have labels := (told.mp same).1
  simp [bracketed, interrupt] at labels

-- Bits that name no mode are not told.
example : (Pattern.families Avc2.literal Avc2.literal 0x01 0).describe =
    (Pattern.families Avc2.literal Avc2.literal 0x02 0).describe := by
  decide

end Opcodes.Proofs.RuleText
