import Opcodes.Proofs.PrintedText

/-!
# Reading lines of bytes and names

A text whose lines are each ended is read line by line, and a line from its
front: a fixed text, a word, or a byte in two lower-case hexadecimal digits. Each
reader accepts exactly what it is meant for and gives what stands behind it.
-/

namespace Opcodes.Proofs.LineReading

open HexText PrintedText
open Text.Hex (pair)

/-! ## Lines -/

/-- The text of lines that are each ended. -/
def unlines (found : List String) : String :=
  String.join (found.map fun line => line ++ "\n")

/-- The lines of a text are the given ones, and each of them is ended. -/
structure Holds (text : String) (found : List String) : Prop where
  lines : lines text = found
  ended : unlines found = text

theorem holds_unlines {found : List String} (oneLine : ∀ line ∈ found, '\n' ∉ line.toList) :
    Holds (unlines found) found :=
  ⟨lines_join oneLine, rfl⟩

@[simp]
theorem unlines_cons (line : String) (rest : List String) :
    unlines (line :: rest) = line ++ "\n" ++ unlines rest := by
  rw [unlines, List.map_cons, String.join_cons, unlines]

section

variable {Item Entry : Type} {read? : String → Option Entry}

/-- What is read of the lines of a text in turn, if all of them can be read. -/
def readEach? (read? : String → Option Entry) (text : String) : Option (List Entry) :=
  (lines text).mapM read?

theorem mapM_map_eq_some {items : List Item} {line : Item → String} {entry : Item → Entry}
    (each : ∀ item ∈ items, read? (line item) = some (entry item)) :
    (items.map line).mapM read? = some (items.map entry) := by
  induction items with
  | nil => rfl
  | cons item rest ih =>
      have first := each item List.mem_cons_self
      have others := ih fun other member => each other (List.mem_cons_of_mem _ member)
      rw [List.map_cons, List.mapM_cons, first, others]
      rfl

theorem Holds.readEach? {text : String} {items : List Item} {line : Item → String}
    {entry : Item → Entry} (holds : Holds text (items.map line))
    (each : ∀ item ∈ items, read? (line item) = some (entry item)) :
    readEach? read? text = some (items.map entry) := by
  rw [LineReading.readEach?, holds.lines, mapM_map_eq_some each]

end

/-! ## Fixed text -/

/-- What stands behind a fixed text at the front. -/
def skip? : List Char → List Char → Option (List Char)
  | [], text => some text
  | _ :: _, [] => none
  | wanted :: more, character :: rest => if character = wanted then skip? more rest else none

theorem skip?_eq_some_iff {fixed text rest : List Char} :
    skip? fixed text = some rest ↔ text = fixed ++ rest := by
  induction fixed generalizing text with
  | nil => simp [skip?]
  | cons wanted more ih =>
      cases text with
      | nil => simp [skip?]
      | cons character others =>
          by_cases same : character = wanted
          · simp [skip?, same, ih]
          · simp [skip?, same]

/-! ## Bytes -/

/-- The hexadecimal digits, each in the place of its value. -/
def digits : List Char :=
  "0123456789abcdef".toList

def digit? (character : Char) : Option Nat :=
  digits.findIdx? fun digit => digit == character

theorem digit?_eq_some_iff {character : Char} {value : Nat} :
    digit? character = some value ↔ value < 16 ∧ character = Nat.digitChar value := by
  have each : ∀ place < 16, digits[place]? = some (Nat.digitChar place) ∧
      digit? (Nat.digitChar place) = some place := by
    decide
  constructor
  · intro read
    obtain ⟨inside, same, _⟩ := List.findIdx?_eq_some_iff_getElem.mp read
    refine ⟨inside, ?_⟩
    have listed := (each value inside).1
    rw [List.getElem?_eq_getElem inside, eq_of_beq same] at listed
    exact Option.some.inj listed
  · rintro ⟨inside, rfl⟩
    exact (each value inside).2

/-- The byte that two digits at the front denote, and what stands behind them. -/
def readByte? : List Char → Option (UInt8 × List Char)
  | high :: low :: rest =>
      match digit? high, digit? low with
      | some first, some second => some (UInt8.ofNat (16 * first + second), rest)
      | _, _ => none
  | _ => none

theorem readByte?_pair (byte : UInt8) (rest : List Char) :
    readByte? ((pair byte).toList ++ rest) = some (byte, rest) := by
  have first := digit?_eq_some_iff.mpr ⟨(digits_lt byte).1, rfl⟩
  have second := digit?_eq_some_iff.mpr ⟨(digits_lt byte).2, rfl⟩
  simp [readByte?, first, second, Nat.div_add_mod]

theorem oneLine_pair (byte : UInt8) : '\n' ∉ (pair byte).toList :=
  not_mem_pair (by decide) byte

theorem pair_ofNat {first second : Nat} (one : first < 16) (other : second < 16) :
    (pair (UInt8.ofNat (16 * first + second))).toList =
      [Nat.digitChar first, Nat.digitChar second] := by
  have small : 16 * first + second < 256 := by omega
  rw [Text.Hex.toList_pair, UInt8.toNat_ofNat_of_lt' small, Nat.mul_add_div (by decide),
    Nat.div_eq_of_lt other, Nat.mul_add_mod, Nat.mod_eq_of_lt other, Nat.add_zero]

theorem readByte?_eq_some_iff {text rest : List Char} {byte : UInt8} :
    readByte? text = some (byte, rest) ↔ text = (pair byte).toList ++ rest := by
  constructor
  · intro read
    unfold readByte? at read
    split at read
    · split at read
      · rename_i high low behind _ _ first second one other
        obtain ⟨inside, rfl⟩ := digit?_eq_some_iff.mp one
        obtain ⟨insideToo, rfl⟩ := digit?_eq_some_iff.mp other
        cases read
        rw [pair_ofNat inside insideToo]
        rfl
      · cases read
    · cases read
  · rintro rfl
    exact readByte?_pair byte rest

/-- The byte whose digits stand between two fixed texts. -/
def readNumber? (front behind : String) (text : List Char) : Option UInt8 := do
  let numbered ← skip? front.toList text
  let (byte, rest) ← readByte? numbered
  if rest = behind.toList then some byte else none

theorem readNumber?_eq_some_iff {front behind : String} {text : List Char} {byte : UInt8} :
    readNumber? front behind text = some byte ↔
      text = front.toList ++ ((pair byte).toList ++ behind.toList) := by
  constructor
  · intro read
    obtain ⟨numbered, start, read⟩ := Option.bind_eq_some_iff.mp read
    obtain ⟨⟨number, rest⟩, digits, read⟩ := Option.bind_eq_some_iff.mp read
    obtain ⟨rfl, same⟩ := Option.ite_none_right_eq_some.mp read
    cases same
    rw [skip?_eq_some_iff.mp start, readByte?_eq_some_iff.mp digits]
  · rintro rfl
    refine Option.bind_eq_some_iff.mpr ⟨_, skip?_eq_some_iff.mpr rfl, ?_⟩
    exact Option.bind_eq_some_iff.mpr ⟨_, readByte?_pair byte _, if_pos rfl⟩

/-! ## Words -/

/-- A word is made of letters and digits, of at least one. -/
def IsWord (word : String) : Prop :=
  word ≠ "" ∧ word.toList.all Char.isAlphanum = true

instance {word : String} : Decidable (IsWord word) :=
  inferInstanceAs (Decidable (_ ∧ _))

theorem IsWord.not_mem {word : String} (isWord : IsWord word) {character : Char}
    (other : character.isAlphanum = false) : character ∉ word.toList := by
  intro member
  rw [List.all_eq_true.mp isWord.2 character member] at other
  cases other

/-- The letters and digits at the front, if there are any, and what stands behind them. -/
def readWord? (text : List Char) : Option (String × List Char) :=
  if text.takeWhile Char.isAlphanum = [] then
    none
  else
    some (String.ofList (text.takeWhile Char.isAlphanum), text.dropWhile Char.isAlphanum)

theorem readWord?_eq_some_iff {text rest : List Char} {word : String} :
    readWord? text = some (word, rest) ↔
      text = word.toList ++ rest ∧ IsWord word ∧
        ∀ character ∈ rest.head?, character.isAlphanum = false := by
  constructor
  · intro read
    obtain ⟨something, same⟩ := Option.ite_none_left_eq_some.mp read
    obtain ⟨rfl, rfl⟩ := Prod.mk.inj (Option.some.inj same)
    refine ⟨?_, ⟨?_, ?_⟩, ?_⟩
    · rw [String.toList_ofList, List.takeWhile_append_dropWhile]
    · rwa [Ne, String.ofList_eq_empty_iff]
    · rw [String.toList_ofList]
      exact List.all_takeWhile
    · intro character first
      have other := List.head?_dropWhile_not Char.isAlphanum text
      simpa [Option.mem_def.mp first] using other
  · rintro ⟨rfl, ⟨something, all⟩, ends⟩
    have nothing : rest.takeWhile Char.isAlphanum = [] ∧
        rest.dropWhile Char.isAlphanum = rest := by
      cases rest with
      | nil => exact ⟨rfl, rfl⟩
      | cons character others => simp [ends character rfl]
    have spelled := List.all_eq_true.mp all
    rw [readWord?, List.takeWhile_append_of_pos spelled, List.dropWhile_append_of_pos spelled,
      nothing.1, nothing.2, List.append_nil, String.ofList_toList,
      if_neg (mt String.toList_eq_nil_iff.mp something)]

end Opcodes.Proofs.LineReading
