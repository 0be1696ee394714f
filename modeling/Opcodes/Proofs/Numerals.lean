import Mathlib.Data.List.Forall2
import Mathlib.Data.List.TakeWhile
import Mathlib.Data.Nat.Digits.Defs
import Mathlib.Tactic.IntervalCases
import Mathlib.Tactic.Ring
import Opcodes.Numeral

/-!
# What numerals denote

Digits denote a number in positional notation, the leading one first. Reading
a numeral is determined by the longest run of digits at its start and by the
number that this run denotes: it must stay below the limit, and the run must be
the whole numeral.
-/

namespace Opcodes.Proofs.Numerals

open Numeral

/-- A character writes a value as one digit of a radix, a letter in either case. -/
def Writes (radix : Nat) (character : Char) (value : Nat) : Prop :=
  value < radix ∧
    (character = Nat.digitChar value ∨ character = (Nat.digitChar value).toUpper)

/-- At least one digit, and the number that the digits denote together. -/
def Denotes (radix : Nat) (digits : List Char) (number : Nat) : Prop :=
  digits ≠ [] ∧
    ∃ values, List.Forall₂ (Writes radix) digits values ∧
      number = Nat.ofDigits radix values.reverse

/-! ## Single digits -/

theorem value?_of_lt {value : Nat} (small : value < 16) :
    value? (Nat.digitChar value) = some value ∧
      value? (Nat.digitChar value).toUpper = some value := by
  interval_cases value <;> decide

theorem ascii_digitChar : ∀ code < 128, ∀ value < 16, value? (Char.ofNat code) = some value →
    Char.ofNat code = Nat.digitChar value ∨
      Char.ofNat code = (Nat.digitChar value).toUpper := by
  decide +kernel

theorem toNat_lt_of_le {character : Char} {bound : UInt32} (inside : character.val ≤ bound)
    (small : bound < 128) : character.toNat < 128 :=
  Nat.lt_of_le_of_lt (UInt32.le_iff_toNat_le.mp inside) (UInt32.lt_iff_toNat_lt.mp small)

theorem toNat_lt_of_value? {character : Char} {value : Nat}
    (read : value? character = some value) : character.toNat < 128 := by
  unfold value? at read
  split at read
  · rename_i digit
    have inside : character.val ≤ '9'.val :=
      of_decide_eq_true (Bool.and_eq_true_iff.mp digit).2
    exact toNat_lt_of_le inside (by decide)
  · split at read
    · rename_i lower
      have inside : character.val ≤ 'z'.val :=
        of_decide_eq_true (Bool.and_eq_true_iff.mp lower).2
      exact toNat_lt_of_le inside (by decide)
    · split at read
      · rename_i upper
        have inside : character.val ≤ 'Z'.val := (of_decide_eq_true upper).2
        exact toNat_lt_of_le inside (by decide)
      · cases read

theorem digit?_eq_some_iff {radix : Nat} (small : radix ≤ 16) {character : Char} {value : Nat} :
    digit? radix character = some value ↔ Writes radix character value := by
  simp only [digit?, Option.filter_eq_some_iff, decide_eq_true_eq, Writes]
  constructor
  · rintro ⟨read, below⟩
    have ascii := ascii_digitChar character.toNat (toNat_lt_of_value? read) value
      (Nat.lt_of_lt_of_le below small)
    rw [Char.ofNat_toNat] at ascii
    exact ⟨below, ascii read⟩
  · rintro ⟨below, rfl | rfl⟩
    · exact ⟨(value?_of_lt (Nat.lt_of_lt_of_le below small)).1, below⟩
    · exact ⟨(value?_of_lt (Nat.lt_of_lt_of_le below small)).2, below⟩

/-! ## Runs of digits -/

/-- The longest run of digits at the start of a text. -/
def run (radix : Nat) (text : List Char) : List Char :=
  text.takeWhile fun character => (digit? radix character).isSome

/-- The number that the digits among the characters denote together. -/
def amount (radix : Nat) (text : List Char) : Nat :=
  Nat.ofDigits radix (text.filterMap (digit? radix)).reverse

theorem run_cons_digit {radix value : Nat} {character : Char} (rest : List Char)
    (digit : digit? radix character = some value) :
    run radix (character :: rest) = character :: run radix rest := by
  simp [run, digit]

theorem run_cons_other {radix : Nat} {character : Char} (rest : List Char)
    (other : digit? radix character = none) : run radix (character :: rest) = [] := by
  simp [run, other]

theorem amount_cons_digit {radix value : Nat} {character : Char} (rest : List Char)
    (digit : digit? radix character = some value) :
    amount radix (character :: run radix rest) =
      value * radix ^ (run radix rest).length + amount radix (run radix rest) := by
  have values : ((run radix rest).filterMap (digit? radix)).length = (run radix rest).length := by
    rw [List.length_filterMap_eq_countP, List.countP_eq_length]
    intro next member
    have digit := List.mem_takeWhile_imp member
    exact digit
  simp only [amount, List.filterMap_cons, digit, List.reverse_cons, Nat.ofDigits_append,
    Nat.ofDigits_singleton, List.length_reverse, values]
  ring

/-- Reading gives the number of a run of digits, or says what ends or overflows the run. -/
theorem readFrom_eq {radix limit value : Nat} (positive : 0 < radix) (small : value < limit)
    (text : List Char) :
    readFrom radix limit value text =
      if limit ≤ value * radix ^ (run radix text).length + amount radix (run radix text) then
        .error .tooLarge
      else if run radix text = text then
        .ok (value * radix ^ (run radix text).length + amount radix (run radix text))
      else
        .error .invalidDigit := by
  induction text generalizing value with
  | nil => simp [readFrom, run, amount, Nat.not_le.mpr small]
  | cons character rest ih =>
      cases found : digit? radix character with
      | none =>
          have zero : amount radix [] = 0 := rfl
          simp [readFrom, found, run_cons_other rest found, zero, Nat.not_le.mpr small]
      | some digit =>
          have shifted : value * radix ^ (character :: run radix rest).length +
              amount radix (character :: run radix rest) =
                (value * radix + digit) * radix ^ (run radix rest).length +
                  amount radix (run radix rest) := by
            rw [amount_cons_digit rest found, List.length_cons]
            ring
          rw [run_cons_digit rest found, shifted]
          simp only [readFrom, found]
          split
          · rename_i below
            rw [ih below]
            simp only [List.cons.injEq, true_and]
          · rename_i above
            have grown : value * radix + digit ≤
                (value * radix + digit) * radix ^ (run radix rest).length :=
              Nat.le_mul_of_pos_right _ (Nat.pow_pos positive)
            rw [if_pos (by omega)]

/-! ## Whole numerals -/

theorem run_eq_self_iff {radix : Nat} {text : List Char} :
    run radix text = text ↔ ∀ character ∈ text, (digit? radix character).isSome = true :=
  List.takeWhile_eq_self_iff

theorem forall₂_writes_iff {radix : Nat} (small : radix ≤ 16) {digits : List Char}
    {values : List Nat} :
    List.Forall₂ (Writes radix) digits values ↔
      run radix digits = digits ∧ digits.filterMap (digit? radix) = values := by
  rw [run_eq_self_iff]
  induction digits generalizing values with
  | nil => cases values <;> simp
  | cons character rest ih =>
      cases found : digit? radix character with
      | none =>
          constructor
          · intro written
            cases written with
            | cons first _ =>
                rw [(digit?_eq_some_iff small).mpr first] at found
                cases found
          · rintro ⟨all, _⟩
            have digit := all character List.mem_cons_self
            rw [found] at digit
            cases digit
      | some value =>
          cases values with
          | nil => simp [found, List.forall₂_nil_right_iff]
          | cons first others =>
              rw [List.forall₂_cons, ih, ← digit?_eq_some_iff small]
              simp [found, and_left_comm]

/-- Characters denote a number exactly if all are digits and that is what they amount to. -/
theorem denotes_iff {radix : Nat} (small : radix ≤ 16) {digits : List Char} {number : Nat} :
    Denotes radix digits number ↔
      digits ≠ [] ∧ run radix digits = digits ∧ amount radix digits = number := by
  simp only [Denotes, forall₂_writes_iff small]
  constructor
  · rintro ⟨nonempty, values, ⟨whole, rfl⟩, rfl⟩
    exact ⟨nonempty, whole, rfl⟩
  · rintro ⟨nonempty, whole, rfl⟩
    exact ⟨nonempty, _, ⟨whole, rfl⟩, rfl⟩

/-- Reading gives what the longest run of digits amounts to, or says what is wrong with the run. -/
theorem read_of_ne_nil {radix limit : Nat} (positive : 0 < radix) (room : 0 < limit)
    {digits : List Char} (something : digits ≠ []) :
    Numeral.read radix limit digits =
      if limit ≤ amount radix (run radix digits) then
        .error .tooLarge
      else if run radix digits = digits then
        .ok (amount radix (run radix digits))
      else
        .error .invalidDigit := by
  have filled : digits.isEmpty = false := List.isEmpty_eq_false_iff.mpr something
  simp only [Numeral.read, filled, Bool.false_eq_true, if_false, readFrom_eq positive room,
    Nat.zero_mul, Nat.zero_add]

end Opcodes.Proofs.Numerals
