import Mathlib.Data.List.DropRight
import Opcodes.ByteLiteral
import Opcodes.Proofs.Numerals

/-!
# The grammar of written bytes

A written byte is a mark that announces a radix, or none for ten, followed by
digits of that radix, with blanks around them. Reading accepts exactly the
texts of this grammar whose number is a byte, and gives that number: nothing
wraps around, and whatever follows the mark has to be a digit.
-/

namespace Opcodes.Proofs.ByteGrammar

open ByteLiteral Numeral Numerals Text.Blank

/-- What may stand in front of the digits, with the radix that it announces. -/
def marks : List (List Char × Nat) :=
  [(['0', 'x'], 16), (['0', 'X'], 16), (['$'], 16), (['#'], 16),
    (['0', 'b'], 2), (['0', 'B'], 2), ([], 10)]

/-- A text writes a number: a mark and digits of its radix between blanks. -/
inductive Literal : List Char → Nat → Prop where
  | intro {before mark digits after : List Char} {radix number : Nat}
      (opening : ∀ character ∈ before, isBlank character = true)
      (announced : (mark, radix) ∈ marks)
      (denoted : Denotes radix digits number)
      (closing : ∀ character ∈ after, isBlank character = true) :
      Literal (before ++ (mark ++ digits) ++ after) number

/-! ## Blanks -/

/-- Only blanks are removed from the two ends. -/
theorem exists_trim (text : List Char) :
    ∃ before after, text = before ++ trim text ++ after ∧
      (∀ character ∈ before, isBlank character = true) ∧
      (∀ character ∈ after, isBlank character = true) := by
  refine ⟨text.takeWhile isBlank, (text.dropWhile isBlank).rtakeWhile isBlank, ?_, ?_, ?_⟩
  · have opened : trim text = (text.dropWhile isBlank).rdropWhile isBlank := rfl
    rw [opened, List.append_assoc, List.rdropWhile_append_rtakeWhile,
      List.takeWhile_append_dropWhile]
  · intro character member
    exact List.mem_takeWhile_imp member
  · intro character member
    exact List.mem_rtakeWhile_imp member

/-- A text that neither begins nor ends with a blank. -/
def Trimmed (text : List Char) : Prop :=
  (∀ character ∈ text.head?, isBlank character = false) ∧
    ∀ character ∈ text.getLast?, isBlank character = false

theorem trimmed_of_solid {text : List Char}
    (solid : ∀ character ∈ text, isBlank character = false) : Trimmed text :=
  ⟨fun character first => solid character (List.mem_of_mem_head? first),
    fun character last => solid character (List.mem_of_getLast? last)⟩

theorem dropWhile_of_head? {text : List Char}
    (first : ∀ character ∈ text.head?, isBlank character = false) :
    text.dropWhile isBlank = text := by
  cases text with
  | nil => rfl
  | cons character rest => exact List.dropWhile_cons_of_neg (by simp [first character rfl])

theorem trimEnd_append {core after : List Char}
    (last : ∀ character ∈ core.getLast?, isBlank character = false)
    (closing : ∀ character ∈ after, isBlank character = true) :
    trimEnd (core ++ after) = core := by
  have mirrored : core.reverse.dropWhile isBlank = core.reverse :=
    dropWhile_of_head? (by simpa using last)
  rw [trimEnd, List.reverse_append, List.dropWhile_append_of_pos (by simpa using closing),
    mirrored, List.reverse_reverse]

theorem trim_append {before core after : List Char}
    (opening : ∀ character ∈ before, isBlank character = true) (trimmed : Trimmed core)
    (closing : ∀ character ∈ after, isBlank character = true) :
    trim (before ++ core ++ after) = core := by
  rw [trim, List.append_assoc, List.dropWhile_append_of_pos opening]
  cases core with
  | nil =>
      rw [List.nil_append, List.dropWhile_eq_nil_iff.mpr closing]
      rfl
  | cons first others =>
      rw [dropWhile_of_head? (by simpa using trimmed.1), trimEnd_append trimmed.2 closing]

/-! ## Marks -/

/-- The characters that write a digit are neither blank nor a sign. -/
theorem solid_of_digit {radix : Nat} (small : radix ≤ 16) {character : Char}
    (digit : (digit? radix character).isSome = true) :
    isBlank character = false ∧ isSigned [character] = false := by
  obtain ⟨value, found⟩ := Option.isSome_iff_exists.mp digit
  obtain ⟨below, written⟩ := (digit?_eq_some_iff small).mp found
  have bound := Nat.lt_of_lt_of_le below small
  clear found below digit
  rcases written with rfl | rfl <;> interval_cases value <;> decide

theorem small_of_mem_marks {mark : List Char} {radix : Nat} (announced : (mark, radix) ∈ marks) :
    0 < radix ∧ radix ≤ 16 := by
  simp only [marks, List.mem_cons, Prod.mk.injEq, List.not_mem_nil, or_false] at announced
  omega

theorem solid_of_mem_marks {mark : List Char} {radix : Nat} (announced : (mark, radix) ∈ marks) :
    ∀ character ∈ mark, isBlank character = false ∧ isSigned [character] = false := by
  have all : ∀ entry ∈ marks, entry.1.all (fun character =>
      !isBlank character && !isSigned [character]) = true := by
    decide
  simpa using all _ announced

/-- Splitting a text takes off one of the marks. -/
theorem exists_splitRadix (text : List Char) :
    ∃ mark, (mark, (splitRadix text).1) ∈ marks ∧ text = mark ++ (splitRadix text).2 := by
  unfold splitRadix
  split
  · exact ⟨['0', 'x'], by simp [marks], rfl⟩
  · exact ⟨['0', 'X'], by simp [marks], rfl⟩
  · exact ⟨['$'], by simp [marks], rfl⟩
  · exact ⟨['#'], by simp [marks], rfl⟩
  · exact ⟨['0', 'b'], by simp [marks], rfl⟩
  · exact ⟨['0', 'B'], by simp [marks], rfl⟩
  · exact ⟨[], by simp [marks], rfl⟩

theorem splitRadix_decimal {digits : List Char}
    (decimal : ∀ character ∈ digits, (digit? 10 character).isSome = true) :
    splitRadix digits = (10, digits) := by
  unfold splitRadix
  split
  · exact absurd (decimal 'x' (by simp)) (by decide)
  · exact absurd (decimal 'X' (by simp)) (by decide)
  · exact absurd (decimal '$' (by simp)) (by decide)
  · exact absurd (decimal '#' (by simp)) (by decide)
  · exact absurd (decimal 'b' (by simp)) (by decide)
  · exact absurd (decimal 'B' (by simp)) (by decide)
  · rfl

/-- A mark is taken off whatever follows it. -/
theorem splitRadix_marked {mark : List Char} {radix : Nat} (announced : (mark, radix) ∈ marks)
    (marked : mark ≠ []) (rest : List Char) : splitRadix (mark ++ rest) = (radix, rest) := by
  simp only [marks, List.mem_cons, Prod.mk.injEq, List.not_mem_nil, or_false] at announced
  rcases announced with ⟨rfl, rfl⟩ | ⟨rfl, rfl⟩ | ⟨rfl, rfl⟩ | ⟨rfl, rfl⟩ | ⟨rfl, rfl⟩ |
    ⟨rfl, rfl⟩ | ⟨rfl, rfl⟩
  case inr.inr.inr.inr.inr.inr => exact absurd rfl marked
  all_goals rfl

theorem radix_of_nil_mem_marks {radix : Nat} (announced : ([], radix) ∈ marks) : radix = 10 := by
  simpa [marks] using announced

/-- In front of digits, no other mark is taken off than the one that announces their radix. -/
theorem splitRadix_append {mark digits : List Char} {radix : Nat}
    (announced : (mark, radix) ∈ marks)
    (all : ∀ character ∈ digits, (digit? radix character).isSome = true) :
    splitRadix (mark ++ digits) = (radix, digits) := by
  by_cases marked : mark = []
  · subst marked
    cases radix_of_nil_mem_marks announced
    exact splitRadix_decimal all
  · exact splitRadix_marked announced marked digits

/-! ## Written bytes -/

theorem all_digits {radix number : Nat} (small : radix ≤ 16) {digits : List Char}
    (denoted : Denotes radix digits number) :
    ∀ character ∈ digits, (digit? radix character).isSome = true :=
  run_eq_self_iff.mp ((denotes_iff small).mp denoted).2.1

/-- What a text writes is what the characters behind its mark denote. -/
theorem literal_iff {text : List Char} {number : Nat} :
    Literal text number ↔
      Denotes (splitRadix (trim text)).1 (splitRadix (trim text)).2 number := by
  constructor
  · intro written
    cases written with
    | @intro before mark digits after radix number opening announced denoted closing =>
        have all := all_digits (small_of_mem_marks announced).2 denoted
        have solid : ∀ character ∈ mark ++ digits, isBlank character = false := by
          intro character member
          rcases List.mem_append.mp member with inMark | inDigits
          · exact (solid_of_mem_marks announced character inMark).1
          · exact (solid_of_digit (small_of_mem_marks announced).2 (all character inDigits)).1
        rw [trim_append opening (trimmed_of_solid solid) closing,
          splitRadix_append announced all]
        exact denoted
  · intro denoted
    obtain ⟨before, after, whole, opening, closing⟩ := exists_trim text
    obtain ⟨mark, announced, split⟩ := exists_splitRadix (trim text)
    have written := Literal.intro opening announced denoted closing
    rw [← split, ← whole] at written
    exact written

theorem Literal.unique {text : List Char} {first second : Nat} (one : Literal text first)
    (other : Literal text second) : first = second := by
  obtain ⟨mark, announced, _⟩ := exists_splitRadix (trim text)
  have small := (small_of_mem_marks announced).2
  have reached := ((denotes_iff small).mp (literal_iff.mp one)).2.2
  rw [← reached]
  exact ((denotes_iff small).mp (literal_iff.mp other)).2.2

theorem unsigned_of_denotes {radix number : Nat} (small : radix ≤ 16) {digits : List Char}
    (denoted : Denotes radix digits number) : isSigned digits = false := by
  have all := all_digits small denoted
  cases digits with
  | nil => rfl
  | cons first rest =>
      have unsigned := (solid_of_digit small (all first List.mem_cons_self)).2
      unfold isSigned at unsigned ⊢
      split <;> simp_all

/-- Without a sign, the longest lead of digits is looked at first, and then what follows it. -/
theorem ofDigits_of_unsigned {radix : Nat} (positive : 0 < radix) {digits : List Char}
    (unsigned : isSigned digits = false) (something : digits ≠ []) :
    ofDigits radix digits =
      if 2 ^ 32 ≤ amount radix (run radix digits) then
        .error (.notANumber .tooLarge)
      else if run radix digits ≠ digits then
        .error (.notANumber .invalidDigit)
      else if 256 ≤ amount radix (run radix digits) then
        .error .outOfRange
      else
        .ok (UInt8.ofNat (amount radix (run radix digits))) := by
  have word : limit = 2 ^ 32 := by decide
  rw [ofDigits, unsigned, if_neg Bool.false_ne_true,
    read_of_ne_nil positive (by decide) something, word]
  by_cases large : 2 ^ 32 ≤ amount radix (run radix digits)
  · rw [if_pos large, if_pos large]
  · by_cases whole : run radix digits = digits
    · by_cases beyond : 256 ≤ amount radix (run radix digits)
      · simp only [if_neg large, if_pos whole, if_neg (not_not_intro whole), if_pos beyond,
          if_neg (Nat.not_lt.mpr beyond)]
      · simp only [if_neg large, if_pos whole, if_neg (not_not_intro whole), if_neg beyond,
          if_pos (Nat.not_le.mp beyond)]
    · simp only [if_neg large, if_neg whole, if_pos whole]

theorem ofDigits_eq_ok_iff {radix : Nat} (positive : 0 < radix) (small : radix ≤ 16)
    {digits : List Char} {byte : UInt8} :
    ofDigits radix digits = .ok byte ↔ Denotes radix digits byte.toNat := by
  constructor
  · intro accepted
    have something : digits ≠ [] := by
      rintro rfl
      cases accepted
    have unsigned : isSigned digits = false := by
      by_contra signed
      rw [ofDigits, if_pos (eq_true_of_ne_false signed)] at accepted
      cases accepted
    rw [ofDigits_of_unsigned positive unsigned something] at accepted
    split_ifs at accepted with large other beyond
    have whole : run radix digits = digits := not_not.mp other
    cases accepted
    rw [UInt8.toNat_ofNat_of_lt' (Nat.not_le.mp beyond), whole]
    exact (denotes_iff small).mpr ⟨something, whole, rfl⟩
  · intro denoted
    obtain ⟨something, whole, reached⟩ := (denotes_iff small).mp denoted
    have below := byte.toNat_lt
    rw [ofDigits_of_unsigned positive (unsigned_of_denotes small denoted) something, whole, reached,
      if_neg (by omega), if_neg (not_not_intro rfl), if_neg (by omega), UInt8.ofNat_toNat]

theorem read_eq_ok_iff_literal {text : String} {byte : UInt8} :
    ByteLiteral.read text = .ok byte ↔ Literal text.toList byte.toNat := by
  obtain ⟨mark, announced, _⟩ := exists_splitRadix (trim text.toList)
  have bounds := small_of_mem_marks announced
  rw [literal_iff, ByteLiteral.read]
  exact ofDigits_eq_ok_iff bounds.1 bounds.2

/-- What is accepted holds neither a blank nor a sign between its two ends. -/
theorem solid_of_literal {text : List Char} {number : Nat} (written : Literal text number) :
    ∀ character ∈ trim text, isBlank character = false ∧ isSigned [character] = false := by
  intro character member
  obtain ⟨mark, announced, split⟩ := exists_splitRadix (trim text)
  have small := (small_of_mem_marks announced).2
  rw [split] at member
  rcases List.mem_append.mp member with inMark | inDigits
  · exact solid_of_mem_marks announced character inMark
  · exact solid_of_digit small (all_digits small (literal_iff.mp written) character inDigits)

/-- A second mark counts as digits, which only those of radix two can be, and only in sixteen. -/
theorem denotes_of_two_marks {text first second digits : List Char} {radix other number : Nat}
    (announced : (first, radix) ∈ marks) (marked : first ≠ [])
    (repeated : (second, other) ∈ marks) (remarked : second ≠ [])
    (shape : trim text = first ++ (second ++ digits)) (written : Literal text number) :
    radix = 16 ∧ Denotes 16 (second ++ digits) number := by
  have denoted := literal_iff.mp written
  rw [shape, splitRadix_marked announced marked] at denoted
  have all := all_digits (small_of_mem_marks announced).2 denoted
  have radices : ∀ entry ∈ marks, entry.1 ≠ [] → entry.2 = 16 ∨ entry.2 = 2 := by
    decide
  have letters : ∀ entry ∈ marks, entry.1 ≠ [] →
      entry.1.any (fun character => (digit? 2 character).isNone) = true := by
    decide
  have hexadecimal : radix = 16 := by
    rcases radices _ announced marked with sixteen | two
    · exact sixteen
    · obtain ⟨character, member, other⟩ :=
        List.any_eq_true.mp (letters _ repeated remarked)
      have digit := all character (List.mem_append_left digits member)
      change radix = 2 at two
      rw [two, Option.isSome_iff_ne_none] at digit
      exact absurd (Option.isNone_iff_eq_none.mp other) digit
  subst hexadecimal
  exact ⟨rfl, denoted⟩

theorem refused_of_forall_not_literal {text : String}
    (none : ∀ byte : UInt8, ¬ Literal text.toList byte.toNat) :
    ∃ error, ByteLiteral.read text = .error error := by
  cases outcome : ByteLiteral.read text with
  | error error => exact ⟨error, rfl⟩
  | ok byte => exact absurd (read_eq_ok_iff_literal.mp outcome) (none byte)

/-- Reading accepts exactly the written bytes. In particular it refuses every number above 255,
every blank and sign between the two ends, and every second mark that is not made of digits. -/
theorem read_accepts_exactly_bytes (text : String) :
    (∀ byte, ByteLiteral.read text = .ok byte ↔ Literal text.toList byte.toNat) ∧
      (∀ number, Literal text.toList number → 255 < number →
        ∃ error, ByteLiteral.read text = .error error) ∧
      (∀ character ∈ trim text.toList,
        isBlank character = true ∨ character = '+' ∨ character = '-' →
          ∃ error, ByteLiteral.read text = .error error) ∧
      (∀ first radix second other digits, (first, radix) ∈ marks → first ≠ [] →
        (second, other) ∈ marks → second ≠ [] →
        trim text.toList = first ++ (second ++ digits) →
          ∀ byte, ByteLiteral.read text = .ok byte →
            radix = 16 ∧ Denotes 16 (second ++ digits) byte.toNat) := by
  refine ⟨fun byte => read_eq_ok_iff_literal, ?_, ?_, ?_⟩
  · intro number written large
    apply refused_of_forall_not_literal
    intro byte other
    have same := written.unique other
    have small := byte.toNat_lt
    omega
  · intro character member unwanted
    apply refused_of_forall_not_literal
    intro byte written
    have solid := solid_of_literal written character member
    rcases unwanted with blank | rfl | rfl
    · rw [blank] at solid
      cases solid.1
    · cases solid.2
    · cases solid.2
  · intro first radix second other digits announced marked repeated remarked shape byte accepted
    exact denotes_of_two_marks announced marked repeated remarked shape
      (read_eq_ok_iff_literal.mp accepted)

example : ByteLiteral.read " #0b1 " = .ok 0xb1 := by
  cbv

end Opcodes.Proofs.ByteGrammar
