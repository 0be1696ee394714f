import Mathlib.Data.List.SplitBy
import Opcodes.Proofs.HexText
import Opcodes.Proofs.Identifiers

/-!
# Reading printed text

A reader of printed text cuts it into lines and a line into columns, and takes
an indented line together with the lines before it. What was printed as blocks
of such lines is so found again.
-/

namespace Opcodes.Proofs.PrintedText

open Identifiers

/-! ## Lines and columns -/

/-- The parts that a mark ends. The last one need not be ended. -/
def cut (mark : Char) : List Char → List (List Char)
  | [] => []
  | character :: rest =>
      if character = mark then
        [] :: cut mark rest
      else
        match cut mark rest with
        | [] => [[character]]
        | part :: later => (character :: part) :: later

def lines (text : String) : List String :=
  (cut '\n' text.toList).map String.ofList

def columns (line : String) : List String :=
  (cut ' ' line.toList).map String.ofList

theorem cut_append {mark : Char} {part : List Char} (unmarked : mark ∉ part)
    (rest : List Char) : cut mark (part ++ mark :: rest) = part :: cut mark rest := by
  induction part with
  | nil => simp [cut]
  | cons character others ih =>
      have other : character ≠ mark := fun same => unmarked (same ▸ List.mem_cons_self)
      have later := ih fun member => unmarked (List.mem_cons_of_mem _ member)
      simp [cut, other, later]

theorem cut_of_not_mem {mark : Char} {part : List Char} (unmarked : mark ∉ part)
    (nonempty : part ≠ []) : cut mark part = [part] := by
  induction part with
  | nil => contradiction
  | cons character others ih =>
      have other : character ≠ mark := fun same => unmarked (same ▸ List.mem_cons_self)
      cases others with
      | nil => simp [cut, other]
      | cons next rest =>
          have later := ih (fun member => unmarked (List.mem_cons_of_mem _ member))
            (List.cons_ne_nil next rest)
          rw [cut, if_neg other, later]

/-- Lines that are printed one after the other are found again. -/
theorem lines_join {texts : List String} (oneLine : ∀ text ∈ texts, '\n' ∉ text.toList) :
    lines (String.join (texts.map fun text => text ++ "\n")) = texts := by
  induction texts with
  | nil => rfl
  | cons text rest ih =>
      have later := ih fun other member => oneLine other (List.mem_cons_of_mem _ member)
      have parted := cut_append (oneLine text List.mem_cons_self)
        (String.join (rest.map fun text => text ++ "\n")).toList
      have whole : (String.join ((text :: rest).map fun text => text ++ "\n")).toList =
          text.toList ++ '\n' :: (String.join (rest.map fun text => text ++ "\n")).toList := by
        rw [List.map_cons, String.join_cons, String.toList_append, String.toList_append,
          List.append_assoc]
        rfl
      rw [lines, whole, parted, List.map_cons, String.ofList_toList]
      exact congrArg (text :: ·) later

theorem columns_append {first : String} (unbroken : ' ' ∉ first.toList) (rest : String) :
    columns (first ++ " " ++ rest) = first :: columns rest := by
  have whole : (first ++ " " ++ rest).toList = first.toList ++ ' ' :: rest.toList := by
    rw [String.toList_append, String.toList_append, List.append_assoc]
    rfl
  rw [columns, whole, cut_append unbroken, List.map_cons, String.ofList_toList]
  rfl

theorem columns_of_unbroken {word : String} (unbroken : ' ' ∉ word.toList)
    (nonempty : word ≠ "") : columns word = [word] := by
  rw [columns, cut_of_not_mem unbroken (mt String.toList_eq_nil_iff.mp nonempty),
    List.map_singleton, String.ofList_toList]

/-! ## Blocks of lines -/

def isIndented (line : String) : Bool :=
  line.toList.head? == some ' '

/-- The lines of a text, each indented one taken together with those before it. -/
def blocks (text : String) : List (List String) :=
  (lines text).splitBy fun _ next => isIndented next

/-- The lines of a text that are not indented. -/
def titles (text : String) : List String :=
  (lines text).filter fun line => !isIndented line

/-- A title with indented lines below it. -/
inductive IsBlock : List String → Prop where
  | intro {title : String} {details : List String} (outer : isIndented title = false)
      (inner : ∀ line ∈ details, isIndented line = true) : IsBlock (title :: details)

theorem isChain_details (title : String) {details : List String}
    (inner : ∀ line ∈ details, isIndented line = true) :
    (title :: details).IsChain fun _ next => isIndented next = true := by
  induction details generalizing title with
  | nil => exact .singleton title
  | cons line rest ih =>
      exact .cons_cons (inner line List.mem_cons_self)
        (ih line fun other member => inner other (List.mem_cons_of_mem _ member))

theorem IsBlock.splitBy {block : List String} (whole : IsBlock block) :
    block.splitBy (fun _ next => isIndented next) = [block] := by
  cases whole with
  | intro outer inner =>
      exact List.splitBy_of_isChain (List.cons_ne_nil _ _) (isChain_details _ inner)

/-- Blocks that are printed one after the other are found again. -/
theorem splitBy_flatten {found : List (List String)} (each : ∀ block ∈ found, IsBlock block) :
    found.flatten.splitBy (fun _ next => isIndented next) = found := by
  induction found with
  | nil => rfl
  | cons block rest ih =>
      have whole := each block List.mem_cons_self
      have others := fun other member => each other (List.mem_cons_of_mem block member)
      have apart : ∀ line ∈ rest.flatten.head?, isIndented line = false := by
        cases rest with
        | nil =>
            intro line member
            cases member
        | cons next later =>
            cases others next List.mem_cons_self with
            | intro outer inner =>
                rintro line ⟨⟩
                exact outer
      rw [List.flatten_cons, List.splitBy_append fun _ _ => apart, whole.splitBy, ih others]
      rfl

theorem IsBlock.filter {title : String} {details : List String}
    (whole : IsBlock (title :: details)) :
    (title :: details).filter (fun line => !isIndented line) = [title] := by
  cases whole with
  | intro outer inner =>
      have none : details.filter (fun line => !isIndented line) = [] := by
        rw [List.filter_eq_nil_iff]
        intro line member
        simp [inner line member]
      simp [outer, none]

/-! ## Printable text -/

/-- The characters of ASCII that take up one place in a line. -/
def isPrintable (character : Char) : Bool :=
  0x20 ≤ character.toNat && character.toNat ≤ 0x7e

def Printable (text : String) : Prop :=
  ∀ character ∈ text.toList, isPrintable character = true

instance {text : String} : Decidable (Printable text) :=
  decidable_of_iff (text.toList.all isPrintable = true) List.all_eq_true

theorem Printable.not_mem {text : String} (printable : Printable text) {character : Char}
    (other : isPrintable character = false) : character ∉ text.toList := by
  intro member
  rw [printable character member] at other
  cases other

theorem Printable.append {first second : String} (one : Printable first)
    (other : Printable second) : Printable (first ++ second) := by
  intro character member
  rw [String.toList_append] at member
  rcases List.mem_append.mp member with inFirst | inSecond
  · exact one character inFirst
  · exact other character inSecond

theorem printable_marked (byte : UInt8) : Printable (Text.Hex.marked byte) :=
  HexText.marked_all (by decide) byte

theorem unbroken_marked (byte : UInt8) : ' ' ∉ (Text.Hex.marked byte).toList :=
  HexText.not_mem_marked (by decide) byte

theorem isPrintable_of_isAlphanum {character : Char} (spelled : character.isAlphanum = true) :
    isPrintable character = true := by
  unfold Char.isAlphanum Char.isAlpha Char.isUpper Char.isLower Char.isDigit at spelled
  simp only [Bool.or_eq_true, Bool.and_eq_true, decide_eq_true_eq, UInt32.le_iff_toNat_le,
    ge_iff_le] at spelled
  simp only [isPrintable, Bool.and_eq_true, decide_eq_true_eq]
  have code : character.toNat = character.val.toNat := rfl
  rcases spelled with (⟨low, high⟩ | ⟨low, high⟩) | ⟨low, high⟩ <;>
    simp only [Char.reduceVal, UInt32.reduceToNat] at low high <;> omega

theorem printable_of_isIdentifier {name : String} (identifier : IsIdentifier name) :
    Printable name :=
  fun character member => isPrintable_of_isAlphanum (identifier.isAlphanum character member)

end Opcodes.Proofs.PrintedText
