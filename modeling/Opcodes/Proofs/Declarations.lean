import Opcodes.Proofs.HexText
import Opcodes.Proofs.Identifiers
import Opcodes.Source

/-!
# What generated text declares

A reader of the generated text skips its comments and reads the declarations in
what is left. No line ends behind the banner, so the comment that it opens
takes the rest of the first line with it: the first constant, or the opening
of the array together with its first element.
-/

namespace Opcodes.Proofs.Declarations

open HexText Identifiers Lexemes Numerals Ownership

/-! ## Declarations -/

def allowance : List Token :=
  [.mark '#', .mark '[', .word "allow", .mark '(', .word "non_upper_case_globals", .mark ')',
    .mark ']']

def constantTokens (name number : String) : List Token :=
  allowance ++
    [.word "pub", .word "const", .word name, .mark ':', .word "u8", .mark '=', .word number,
      .mark ';']

/-- A number is the byte in two hexadecimal digits behind `0x`. -/
def WritesByte (number : String) (byte : UInt8) : Prop :=
  ∃ digits, number.toList = '0' :: 'x' :: digits ∧ digits.length = 2 ∧
    Denotes 16 digits byte.toNat

/-- The tokens declare the listed constants in turn, and nothing else. -/
def DeclaresConstants : List (UInt8 × String) → List Token → Prop
  | [], found => found = []
  | (byte, name) :: rest, found =>
      ∃ number later, WritesByte number byte ∧ found = constantTokens name number ++ later ∧
        DeclaresConstants rest later

def elementTokens : Option String → List Token
  | none => [.word "None", .mark ',']
  | some name => [.word "Some", .mark '(', .literal name, .mark ')', .mark ',']

/-- The declaration of the array up to its first element. -/
def arrayOpening : List Token :=
  [.word "pub", .word "static", .word "OPCODE_NAMES", .mark ':', .mark '[', .word "Option",
    .mark '<', .mark '&', .word "str", .mark '>', .mark ';', .word "256", .mark ']', .mark '=',
    .mark '[']

def arrayClosing : List Token :=
  [.mark ']', .mark ';']

/-- The tokens declare the array with the given elements, and nothing else. -/
def DeclaresArray (elements : List (Option String)) (found : List Token) : Prop :=
  found = arrayOpening ++ elements.flatMap elementTokens ++ arrayClosing

/-- The tokens declare what a table holds: each defined byte as one constant, in any order, or the
array of the mnemonics of all bytes. -/
def Declares (table : Table) : Emission → List Token → Prop
  | .consts, found => ∃ listed, listed.Perm table.defined ∧ DeclaresConstants listed found
  | .names, found =>
      DeclaresArray (Byte.all.map fun byte => (table.instruction byte).mnemonic?) found

theorem WritesByte.unique {number : String} {first second : UInt8}
    (one : WritesByte number first) (other : WritesByte number second) : first = second := by
  obtain ⟨digits, split, _, denoted⟩ := one
  obtain ⟨others, splitAgain, _, denotedAgain⟩ := other
  cases (List.cons.inj (List.cons.inj (split.symm.trans splitAgain)).2).2
  have reached := ((denotes_iff (Nat.le_refl 16)).mp denoted).2.2
  have reachedAgain := ((denotes_iff (Nat.le_refl 16)).mp denotedAgain).2.2
  exact UInt8.toNat_inj.mp (reached.symm.trans reachedAgain)

theorem DeclaresConstants.unique {first second : List (UInt8 × String)} {found : List Token}
    (one : DeclaresConstants first found) (other : DeclaresConstants second found) :
    first = second := by
  induction first generalizing second found with
  | nil =>
      cases second with
      | nil => rfl
      | cons entry rest =>
          obtain ⟨_, _, _, shape, _⟩ := other
          rw [show found = [] from one] at shape
          cases shape
  | cons entry rest ih =>
      obtain ⟨number, later, written, shape, declared⟩ := one
      cases second with
      | nil =>
          rw [show found = [] from other] at shape
          cases shape
      | cons another others =>
          obtain ⟨numberAgain, laterAgain, writtenAgain, shapeAgain, declaredAgain⟩ := other
          have same := shape.symm.trans shapeAgain
          simp only [constantTokens, allowance, List.cons_append, List.nil_append, List.cons.injEq,
            Token.word.injEq, true_and] at same
          obtain ⟨sameName, sameNumber, sameLater⟩ := same
          subst sameNumber sameLater
          have sameByte := written.unique writtenAgain
          rw [ih declared declaredAgain, Prod.ext sameByte sameName]

/-! ## Lines of the generated text -/

theorem writesByte_marked (byte : UInt8) : WritesByte (Text.Hex.marked byte) byte :=
  ⟨(Text.Hex.pair byte).toList, Text.Hex.toList_marked byte, by simp, denotes_pair byte⟩

theorem reads_constant {name : String} (identifier : IsIdentifier name) (byte : UInt8) :
    Reads (Source.constant byte name).toList (constantTokens name (Text.Hex.marked byte)) := by
  have opening : Reads "#[allow(non_upper_case_globals)] pub const ".toList
      (allowance ++ [.word "pub", .word "const"]) := by
    decide
  have typed : Reads ": u8 = ".toList [.mark ':', .word "u8", .mark '='] := by
    decide
  have ended : Reads ";\n".toList [.mark ';'] := by
    decide
  have named := typed.word identifier.ne_nil identifier.isWordCharacter (by decide)
  have valued : Reads ((Text.Hex.marked byte).toList ++ ";\n".toList)
      [.word (Text.Hex.marked byte), .mark ';'] :=
    ended.word (by simp) (marked_all (by decide) byte) (by decide)
  have whole := opening.append (named.append valued)
  have text : (Source.constant byte name).toList =
      "#[allow(non_upper_case_globals)] pub const ".toList ++
        ((name.toList ++ ": u8 = ".toList) ++
          ((Text.Hex.marked byte).toList ++ ";\n".toList)) := by
    unfold Source.constant
    simp only [String.toList_append, List.append_assoc]
  rw [text]
  exact whole

theorem value_some {name : String} (identifier : IsIdentifier name) :
    (Source.value (some name)).toList = "Some(\"".toList ++ (name.toList ++ "\")".toList) := by
  rw [Source.value_of_isAlphanum identifier.isAlphanum, String.toList_append, String.toList_append,
    List.append_assoc]

theorem not_mem_value {mnemonic : Option String}
    (identifiers : ∀ name ∈ mnemonic, IsIdentifier name) {character : Char}
    (other : character.isAlphanum = false)
    (outside : character ∉ "None".toList ++ "Some(\"\")".toList) :
    character ∉ (Source.value mnemonic).toList := by
  cases mnemonic with
  | none => exact fun member => outside (List.mem_append_left _ member)
  | some name =>
      have unnamed := (identifiers name rfl).not_mem other
      rw [value_some (identifiers name rfl)]
      simp only [List.mem_append, unnamed, false_or]
      intro member
      apply outside
      apply List.mem_append_right
      have split : "Some(\"\")".toList = "Some(\"".toList ++ "\")".toList := rfl
      rw [split]
      exact List.mem_append.mpr member

theorem reads_value {mnemonic : Option String}
    (identifiers : ∀ name ∈ mnemonic, IsIdentifier name) :
    Reads ((Source.value mnemonic).toList ++ ", ".toList) (elementTokens mnemonic) := by
  cases mnemonic with
  | none => decide
  | some name =>
      have unquoted := (identifiers name rfl).not_mem (by decide : '"'.isAlphanum = false)
      have opened : run Reading.step .between "Some(\"".toList =
          ([.word "Some", .mark '('], .literal []) := by
        decide
      have closing : Reads ("\")".toList ++ ", ".toList).tail [.mark ')', .mark ','] := by
        decide
      have whole := Reads.literal opened unquoted (by decide) closing
      rw [value_some (identifiers name rfl)]
      simp only [List.append_assoc]
      exact whole

/-! ## What a text tells -/

/-- Outside its comments, a text has the given tokens, and it ends outside of them. -/
def Tells (text : List Char) (found : List Token) : Prop :=
  ∃ left, run Place.step .code text = (left, .code) ∧ Reads left found

theorem Tells.tokens {text : List Char} {found : List Token} (tells : Tells text found) :
    tokens (uncommented text) = found := by
  obtain ⟨left, kept, reads⟩ := tells
  rw [uncommented_of_run kept, reads.tokens]

theorem Tells.append {first second : List Char} {found others : List Token}
    (one : Tells first found) (other : Tells second others) :
    Tells (first ++ second) (found ++ others) := by
  obtain ⟨left, kept, reads⟩ := one
  obtain ⟨later, keptLater, readsLater⟩ := other
  exact ⟨left ++ later, run_append_of_eq kept keptLater, reads.append readsLater⟩

theorem tells_code {text : List Char} {found : List Token} (plain : '/' ∉ text)
    (reads : Reads text found) : Tells text found :=
  ⟨text, run_code plain, reads⟩

/-- Of a comment, only the end of its line is left. -/
theorem tells_comment {line : List Char} (oneLine : '\n' ∉ line) :
    Tells ("//".toList ++ (line ++ ['\n'])) [] := by
  have opens : run Place.step .code "//".toList = ([], .comment) := by
    decide
  have closes : run Place.step .comment ['\n'] = (['\n'], .code) := by
    decide
  have whole := run_append_of_eq opens (run_append_of_eq (run_comment oneLine) closes)
  exact ⟨['\n'], whole, by decide⟩

/-- An entry is one ended line with the given tokens outside its comment. -/
structure IsEntry (entry : String) (found : List Token) : Prop where
  line : ∃ line, entry.toList = line ++ ['\n'] ∧ '\n' ∉ line
  tells : Tells entry.toList found

theorem isEntry_constant {name : String} (identifier : IsIdentifier name) (byte : UInt8) :
    IsEntry (Source.constant byte name) (constantTokens name (Text.Hex.marked byte)) where
  line := by
    have unnamed := identifier.not_mem (by decide : '\n'.isAlphanum = false)
    have unnumbered := not_mem_marked (by decide : '\n' ∉ alphabet) byte
    refine ⟨"#[allow(non_upper_case_globals)] pub const ".toList ++ name.toList ++
      ": u8 = ".toList ++ (Text.Hex.marked byte).toList ++ [';'], ?_, ?_⟩
    · unfold Source.constant
      simp only [String.toList_append, List.append_assoc]
      rfl
    · simp only [List.mem_append, unnamed, unnumbered, or_false]
      decide
  tells := by
    have unnamed := identifier.not_mem (by decide : '/'.isAlphanum = false)
    have unnumbered := not_mem_marked (by decide : '/' ∉ alphabet) byte
    refine tells_code ?_ (reads_constant identifier byte)
    unfold Source.constant
    simp only [String.toList_append, List.mem_append, unnamed, unnumbered, or_false]
    decide

theorem isEntry_element {mnemonic : Option String}
    (identifiers : ∀ name ∈ mnemonic, IsIdentifier name) (byte : UInt8) :
    IsEntry (Source.element byte mnemonic) (elementTokens mnemonic) where
  line := by
    have unnamed := not_mem_value identifiers (by decide : '\n'.isAlphanum = false) (by decide)
    have unnumbered := not_mem_marked (by decide : '\n' ∉ alphabet) byte
    refine ⟨(Source.value mnemonic).toList ++ ", // ".toList ++ (Text.Hex.marked byte).toList,
      ?_, ?_⟩
    · unfold Source.element
      simp only [String.toList_append, List.append_assoc]
      rfl
    · simp only [List.mem_append, unnamed, unnumbered, or_false, false_or]
      decide
  tells := by
    have unslashed := not_mem_value identifiers (by decide : '/'.isAlphanum = false) (by decide)
    have plain : '/' ∉ (Source.value mnemonic).toList ++ ", ".toList := by
      simp [unslashed]
    have oneLine : '\n' ∉ " ".toList ++ (Text.Hex.marked byte).toList := by
      rw [List.mem_append, not_or]
      exact ⟨by decide, not_mem_marked (by decide) byte⟩
    have whole := (tells_code plain (reads_value identifiers)).append (tells_comment oneLine)
    rw [List.append_nil] at whole
    unfold Source.element
    simp only [String.toList_append, List.append_assoc] at whole ⊢
    exact whole

theorem tells_entries {entries : List String} {told : List (List Token)}
    (each : List.Forall₂ IsEntry entries told) :
    Tells (entries.flatMap String.toList) told.flatten := by
  induction each with
  | nil => exact ⟨[], rfl, rfl⟩
  | cons entry _ ih => exact entry.tells.append ih

/-! ## The whole text -/

/-- The tokens of the generated text that stand outside its comments. -/
def left (table : Table) (emission : Emission) : List Token :=
  tokens (uncommented (Source.text table emission).toList)

/-- What the entries declare, each by itself. -/
def told (table : Table) : Emission → List (List Token)
  | .names => table.toList.map fun entry => elementTokens entry.2.mnemonic?
  | .consts => table.defined.map fun entry => constantTokens entry.2 (Text.Hex.marked entry.1)

def openingTokens : Emission → List Token
  | .names => arrayOpening
  | .consts => []

def closingTokens : Emission → List Token
  | .names => arrayClosing
  | .consts => []

theorem isEntry_entries {table : Table}
    (identifiers : ∀ entry ∈ table.defined, IsIdentifier entry.2) (emission : Emission) :
    List.Forall₂ IsEntry (Source.entries table emission) (told table emission) := by
  cases emission with
  | consts =>
      rw [Source.entries, told, List.forall₂_map_left_iff, List.forall₂_map_right_iff,
        List.forall₂_same]
      exact fun entry member => isEntry_constant (identifiers entry member) entry.1
  | names =>
      rw [Source.entries, told, List.forall₂_map_left_iff, List.forall₂_map_right_iff,
        List.forall₂_same]
      intro entry member
      refine isEntry_element (fun name named => ?_) entry.1
      exact identifiers (entry.1, name) (mem_defined_iff.mpr ⟨entry.2, member, named⟩)

theorem tells_heading (emission : Emission) :
    Tells (Source.heading emission).toList (openingTokens emission) := by
  cases emission <;> exact tells_code (by decide) (by decide)

theorem tells_gap (entries : List String) : Tells (Source.gap entries).toList [] := by
  cases entries with
  | nil => exact tells_code (by decide) (by decide)
  | cons first rest =>
      rw [Source.gap_cons]
      exact tells_code (by decide) (by decide)

theorem tells_closing (emission : Emission) :
    Tells (Source.closing emission).toList (closingTokens emission) := by
  cases emission <;> exact tells_code (by decide) (by decide)

/-- The banner opens a comment, which takes all that stands behind it in its line. -/
theorem tells_banner {line : List Char} (oneLine : '\n' ∉ line) :
    Tells (Source.banner.toList ++ (line ++ ['\n'])) [] := by
  have banner : Source.banner.toList =
      "//".toList ++ " Generated by tablegen, do not edit.".toList := by
    decide
  have behind : '\n' ∉ " Generated by tablegen, do not edit.".toList ++ line := by
    simp [oneLine]
  rw [banner, List.append_assoc, ← List.append_assoc _ line]
  exact tells_comment behind

/-- The generated text behind the banner. -/
def behind (table : Table) (emission : Emission) : List Char :=
  (Source.heading emission).toList ++ (Source.gap (Source.entries table emission)).toList ++
    (Source.entries table emission).flatMap String.toList ++ (Source.closing emission).toList

theorem toList_text (table : Table) (emission : Emission) :
    (Source.text table emission).toList = Source.banner.toList ++ behind table emission := by
  rw [Source.text_eq, behind]
  simp only [String.toList_append, String.toList_join, List.append_assoc]

section

variable {table : Table} (identifiers : ∀ entry ∈ table.defined, IsIdentifier entry.2)
include identifiers

theorem tells_behind (emission : Emission) :
    Tells (behind table emission)
      (openingTokens emission ++ (told table emission).flatten ++ closingTokens emission) := by
  have entries := tells_entries (isEntry_entries identifiers emission)
  have opened := (tells_heading emission).append (tells_gap (Source.entries table emission))
  rw [List.append_nil] at opened
  exact (opened.append entries).append (tells_closing emission)

/-- The first line has the first entry in its comment; behind it, all other entries are left. -/
theorem left_eq (emission : Emission) :
    left table emission = (told table emission).tail.flatten ++ closingTokens emission := by
  have heading : '\n' ∉ (Source.heading emission).toList := by
    cases emission <;> decide
  have each := isEntry_entries identifiers emission
  have closing := tells_closing emission
  rw [left, toList_text, behind]
  generalize Source.entries table emission = entries at each
  generalize told table emission = told at each
  apply Tells.tokens
  cases each with
  | nil =>
      have whole := (tells_banner heading).append closing
      simp only [List.append_assoc] at whole ⊢
      exact whole
  | @cons entry found rest others isEntry each =>
      obtain ⟨line, ended, oneLine⟩ := isEntry.line
      have first : '\n' ∉ (Source.heading emission).toList ++ (" ".toList ++ line) := by
        simp [heading, oneLine]
      have whole := (tells_banner first).append ((tells_entries each).append closing)
      rw [List.flatMap_cons, Source.gap_cons, ended]
      simp only [List.append_assoc] at whole ⊢
      exact whole

end

theorem declaresConstants_flatten (listed : List (UInt8 × String)) :
    DeclaresConstants listed
      (listed.map fun entry => constantTokens entry.2 (Text.Hex.marked entry.1)).flatten := by
  induction listed with
  | nil => rfl
  | cons entry rest ih => exact ⟨_, _, writesByte_marked entry.1, rfl, ih⟩

/-- All entries together, between what opens and what closes them, declare the table. -/
theorem declares_told (table : Table) (emission : Emission) :
    Declares table emission
      (openingTokens emission ++ (told table emission).flatten ++ closingTokens emission) := by
  cases emission with
  | consts =>
      refine ⟨table.defined, .refl _, ?_⟩
      rw [closingTokens, List.append_nil]
      exact declaresConstants_flatten table.defined
  | names =>
      unfold Declares DeclaresArray
      rw [← toList_map_mnemonic?, List.flatMap_map, List.flatMap_def]
      rfl

/-- What is left of the array does not begin as its declaration does. -/
theorem not_declaresArray_elements (elements rest : List (Option String)) :
    ¬ DeclaresArray rest (elements.flatMap elementTokens ++ arrayClosing) := by
  intro declared
  have heads := congrArg List.head? declared
  cases elements with
  | nil => cases heads
  | cons first others =>
      cases first with
      | none => simp [elementTokens, arrayOpening] at heads
      | some name => simp [elementTokens, arrayOpening] at heads

/-- Outside its comments, the generated text declares all constants but the first, and of the array
it holds the elements behind the first and the end. So it declares what the table holds exactly
if constants are wanted and no byte is defined; with a line end behind the banner it always
would. -/
theorem generated_declares_iff (table : Table)
    (identifiers : ∀ entry ∈ table.defined, IsIdentifier entry.2) (emission : Emission) :
    DeclaresConstants table.defined.tail (left table .consts) ∧
      left table .names =
        (table.toList.tail.map fun entry => entry.2.mnemonic?).flatMap elementTokens ++
          arrayClosing ∧
      (Declares table emission (left table emission) ↔
        emission = .consts ∧ table.defined = []) ∧
      ∃ rest, (Source.text table emission).toList = Source.banner.toList ++ rest ∧
        Declares table emission
          (tokens (uncommented ((Source.banner.toList ++ ['\n']) ++ rest))) := by
  have consts : DeclaresConstants table.defined.tail (left table .consts) := by
    rw [left_eq identifiers, told, ← List.map_tail, closingTokens, List.append_nil]
    exact declaresConstants_flatten table.defined.tail
  have names : left table .names =
      (table.toList.tail.map fun entry => entry.2.mnemonic?).flatMap elementTokens ++
        arrayClosing := by
    rw [left_eq identifiers, told, ← List.map_tail, List.flatMap_map, List.flatMap_def]
    rfl
  refine ⟨consts, names, ?_, behind table emission, toList_text table emission, ?_⟩
  · cases emission with
    | names =>
        rw [names]
        constructor
        · intro declared
          exact absurd declared (not_declaresArray_elements _ _)
        · rintro ⟨impossible, _⟩
          cases impossible
    | consts =>
        constructor
        · rintro ⟨listed, perm, declared⟩
          have length := perm.length_eq
          rw [declared.unique consts, List.length_tail] at length
          exact ⟨rfl, List.eq_nil_of_length_eq_zero (by omega)⟩
        · rintro ⟨_, empty⟩
          rw [empty] at consts
          exact ⟨[], by rw [empty], consts⟩
  · have ended := tells_banner (List.not_mem_nil : '\n' ∉ [])
    rw [List.nil_append] at ended
    rw [(ended.append (tells_behind identifiers emission)).tokens]
    exact declares_told table emission

/-- Neither text for the table of the machine declares what the table holds. -/
theorem avc2_generated_declares_neither :
    (∀ entry ∈ Avc2.table.defined, IsIdentifier entry.2) ∧
      ∀ emission, ¬ Declares Avc2.table emission (left Avc2.table emission) := by
  have identifiers := usesIdentifiers_avc2.defined
  refine ⟨identifiers, fun emission declared => ?_⟩
  have told := (generated_declares_iff Avc2.table identifiers emission).2.2.1
  have produces : produced? Avc2.instructionSet.resolve 0x83 = some "RTI" := by
    decide +kernel
  obtain ⟨_, member, _⟩ := exists_mem_defined_build_iff.mpr ⟨0x83, produces⟩
  exact List.ne_nil_of_mem member (told.mp declared).2

end Opcodes.Proofs.Declarations
