import Mathlib.Logic.ExistsUnique
import Opcodes.Proofs.ByteGrammar

/-!
# Verdicts on written bytes

A text that should write a byte is either accepted or refused for one of five
reasons. What decides between them is a sign behind its mark, the longest lead
of digits, the number that this lead denotes, and whether anything follows it.
Exactly one verdict fits each text, and reading the text reports that one.
-/

namespace Opcodes.Proofs.Verdicts

open ByteLiteral ByteGrammar Numerals Text.Blank
open Numeral (digit?)

/-! ## Marks -/

/-- What a text holds behind its blanks and its mark, and the radix that the mark announces. The
mark is empty only where no other one stands. -/
inductive Announces : List Char → Nat → List Char → Prop where
  | intro {before mark digits after : List Char} {radix : Nat}
      (opening : ∀ character ∈ before, isBlank character = true)
      (trimmed : Trimmed (mark ++ digits))
      (announced : (mark, radix) ∈ marks)
      (unmarked : mark = [] → ∀ other ∈ marks, other.1 <+: digits → other.1 = [])
      (closing : ∀ character ∈ after, isBlank character = true) :
      Announces (before ++ (mark ++ digits) ++ after) radix digits

theorem solid_head?_dropWhile (text : List Char) :
    ∀ character ∈ (text.dropWhile isBlank).head?, isBlank character = false := by
  intro character first
  have solid := List.head?_dropWhile_not isBlank text
  rw [Option.mem_def.mp first] at solid
  exact solid

theorem trimmed_trim (text : List Char) : Trimmed (trim text) := by
  constructor
  · intro character first
    obtain ⟨rest, whole⟩ : trim text <+: text.dropWhile isBlank := List.rdropWhile_prefix _ _
    apply solid_head?_dropWhile text
    rw [← whole, List.head?_append, Option.mem_def.mp first]
    rfl
  · intro character last
    rw [trim, trimEnd, List.getLast?_reverse] at last
    exact solid_head?_dropWhile _ character last

/-- Where no other mark stands, none is taken off. -/
theorem splitRadix_unmarked {digits : List Char}
    (unmarked : ∀ other ∈ marks, other.1 <+: digits → other.1 = []) :
    splitRadix digits = (10, digits) := by
  obtain ⟨mark, announced, split⟩ := exists_splitRadix digits
  have empty : mark = [] := unmarked _ announced ⟨_, split.symm⟩
  subst empty
  exact Prod.ext (radix_of_nil_mem_marks announced) split.symm

theorem announces_iff {text digits : List Char} {radix : Nat} :
    Announces text radix digits ↔ splitRadix (trim text) = (radix, digits) := by
  constructor
  · intro announces
    cases announces with
    | @intro before mark digits after radix opening trimmed announced unmarked closing =>
        rw [trim_append opening trimmed closing]
        by_cases marked : mark = []
        · subst marked
          rw [radix_of_nil_mem_marks announced]
          exact splitRadix_unmarked (unmarked rfl)
        · exact splitRadix_marked announced marked digits
  · intro split
    obtain ⟨before, after, whole, opening, closing⟩ := exists_trim text
    obtain ⟨mark, announced, parts⟩ := exists_splitRadix (trim text)
    rw [split] at announced parts
    have trimmed := trimmed_trim text
    rw [parts] at whole trimmed
    rw [whole]
    refine .intro opening trimmed announced ?_ closing
    rintro rfl other member ⟨rest, front⟩
    by_contra marked
    have taken := splitRadix_marked member marked rest
    rw [front, ← List.nil_append digits, ← parts, split] at taken
    have shorter : rest = digits := (congrArg Prod.snd taken).symm
    rw [shorter] at front
    exact marked (List.append_left_eq_self.mp front)

/-! ## Leads -/

/-- The longest lead of digits, and the number that it denotes. -/
structure Leads (radix : Nat) (digits lead : List Char) (number : Nat) : Prop where
  front : lead <+: digits
  denoted : ∃ values, List.Forall₂ (Writes radix) lead values ∧
    number = Nat.ofDigits radix values.reverse
  longest : ∀ other values, other <+: digits → List.Forall₂ (Writes radix) other values →
    other.length ≤ lead.length

theorem run_run (radix : Nat) (digits : List Char) :
    run radix (run radix digits) = run radix digits := by
  rw [run_eq_self_iff]
  intro character member
  have digit := List.mem_takeWhile_imp member
  exact digit

/-- Digits at the start of a text belong to its run of digits. -/
theorem prefix_run {radix : Nat} (small : radix ≤ 16) {digits lead : List Char} {values : List Nat}
    (front : lead <+: digits) (written : List.Forall₂ (Writes radix) lead values) :
    lead <+: run radix digits := by
  obtain ⟨rest, rfl⟩ := front
  have all := run_eq_self_iff.mp ((forall₂_writes_iff small).mp written).1
  rw [run, List.takeWhile_append_of_pos all]
  exact List.prefix_append _ _

theorem leads_iff {radix : Nat} (small : radix ≤ 16) {digits lead : List Char} {number : Nat} :
    Leads radix digits lead number ↔
      lead = run radix digits ∧ number = amount radix (run radix digits) := by
  have leading : run radix digits <+: digits := List.takeWhile_prefix _
  have written : List.Forall₂ (Writes radix) (run radix digits)
      ((run radix digits).filterMap (digit? radix)) :=
    (forall₂_writes_iff small).mpr ⟨run_run radix digits, rfl⟩
  constructor
  · rintro ⟨front, ⟨values, denoted, rfl⟩, longest⟩
    have whole : lead = run radix digits :=
      (prefix_run small front denoted).eq_of_length_le (longest _ _ leading written)
    subst whole
    exact ⟨rfl, by rw [amount, ((forall₂_writes_iff small).mp denoted).2]⟩
  · rintro ⟨rfl, rfl⟩
    refine ⟨leading, ⟨_, written, rfl⟩, ?_⟩
    intro other values front denoted
    exact (prefix_run small front denoted).length_le

/-! ## Verdicts -/

/-- What can be said of a text that should write a byte. -/
inductive Verdict where
  | signed
  | empty
  | tooLarge
  | invalidDigit
  | outOfRange
  | byte (value : UInt8)
deriving DecidableEq, Repr

/-- The byte that a verdict accepts, or the message for a refusal and that of its cause. -/
def Verdict.report (text : String) : Verdict → Except Failure UInt8
  | signed => .error ⟨"'" ++ text ++ "' must not carry a sign", none⟩
  | empty =>
      .error ⟨"'" ++ text ++ "' is not a number", some "cannot parse integer from empty string"⟩
  | tooLarge =>
      .error ⟨"'" ++ text ++ "' is not a number",
        some "number too large to fit in target type"⟩
  | invalidDigit =>
      .error ⟨"'" ++ text ++ "' is not a number", some "invalid digit found in string"⟩
  | outOfRange => .error ⟨text ++ " is out of range, opcodes are 0..=255", none⟩
  | byte value => .ok value

/-- A plus or a minus stands in front. -/
def Signed (digits : List Char) : Prop :=
  digits.head? = some '+' ∨ digits.head? = some '-'

/-- The verdict on the characters behind a mark, where the longest lead of digits denotes `number`.
A sign goes before everything else, and a lead that is too large before what follows it. -/
inductive Fits (digits lead : List Char) (number : Nat) : Verdict → Prop where
  | signed (sign : Signed digits) : Fits digits lead number .signed
  | empty (nothing : digits = []) : Fits digits lead number .empty
  | tooLarge (unsigned : ¬ Signed digits) (large : 2 ^ 32 ≤ number) :
      Fits digits lead number .tooLarge
  | invalidDigit (unsigned : ¬ Signed digits) (something : digits ≠ []) (word : number < 2 ^ 32)
      (cut : lead.length < digits.length) : Fits digits lead number .invalidDigit
  | outOfRange (unsigned : ¬ Signed digits) (something : digits ≠ []) (whole : lead = digits)
      (large : 256 ≤ number) (word : number < 2 ^ 32) : Fits digits lead number .outOfRange
  | byte (value : UInt8) (unsigned : ¬ Signed digits) (something : digits ≠ [])
      (whole : lead = digits) (denoted : number = value.toNat) :
      Fits digits lead number (.byte value)

/-- The verdict on a text. -/
def Deserves (text : List Char) (verdict : Verdict) : Prop :=
  ∃ radix digits lead number, Announces text radix digits ∧ Leads radix digits lead number ∧
    Fits digits lead number verdict

/-! ## Readings -/

/-- What reading gives with a verdict. -/
def Verdict.reading : Verdict → Except Error UInt8
  | signed => .error .signed
  | empty => .error (.notANumber .empty)
  | tooLarge => .error (.notANumber .tooLarge)
  | invalidDigit => .error (.notANumber .invalidDigit)
  | outOfRange => .error .outOfRange
  | byte value => .ok value

theorem Verdict.report_eq (text : String) (verdict : Verdict) :
    verdict.report text = verdict.reading.mapError (Error.failure text) := by
  cases verdict <;> rfl

/-- A sign and a number out of range have no cause, but the messages end differently. -/
theorem signed_message_ne (text : String) :
    "'" ++ text ++ "' must not carry a sign" ≠ text ++ " is out of range, opcodes are 0..=255" := by
  intro same
  have one : "' must not carry a sign".toList.getLast? = some 'n' := by decide
  have other : " is out of range, opcodes are 0..=255".toList.getLast? = some '5' := by decide
  have last := congrArg (fun message => message.toList.getLast?) same
  simp only [String.toList_append, List.getLast?_append, one, other, Option.some_or] at last
  cases last

theorem Verdict.report_injective (text : String) : Function.Injective (Verdict.report text) := by
  intro one other same
  have unlike := signed_message_ne text
  cases one <;> cases other <;> simp_all [Verdict.report]

theorem isSigned_iff {digits : List Char} : isSigned digits = true ↔ Signed digits := by
  unfold Signed isSigned
  split
  · simp
  · simp
  · rename_i plus minus
    cases digits with
    | nil => simp
    | cons first rest =>
        have unlike := And.intro (plus rest) (minus rest)
        simpa using unlike

theorem isSigned_eq_false {digits : List Char} (unsigned : ¬ Signed digits) :
    isSigned digits = false :=
  Bool.eq_false_iff.mpr (mt isSigned_iff.mp unsigned)

theorem ne_nil_of_large {radix : Nat} {digits : List Char}
    (large : 2 ^ 32 ≤ amount radix (run radix digits)) : digits ≠ [] := by
  rintro rfl
  have none : amount radix (run radix []) = 0 := rfl
  rw [none] at large
  exact absurd large (by decide)

/-- Reading gives what fits. -/
theorem ofDigits_of_fits {radix : Nat} (positive : 0 < radix) {digits : List Char}
    {verdict : Verdict}
    (fits : Fits digits (run radix digits) (amount radix (run radix digits)) verdict) :
    ofDigits radix digits = verdict.reading := by
  cases fits with
  | signed sign => rw [ofDigits, if_pos (isSigned_iff.mpr sign), Verdict.reading]
  | empty nothing =>
      subst nothing
      rfl
  | tooLarge unsigned large =>
      rw [ofDigits_of_unsigned positive (isSigned_eq_false unsigned) (ne_nil_of_large large),
        if_pos large, Verdict.reading]
  | invalidDigit unsigned something word cut =>
      have other : run radix digits ≠ digits := fun whole => by rw [whole] at cut; omega
      rw [ofDigits_of_unsigned positive (isSigned_eq_false unsigned) something,
        if_neg (Nat.not_le.mpr word), if_pos other, Verdict.reading]
  | outOfRange unsigned something whole large word =>
      rw [ofDigits_of_unsigned positive (isSigned_eq_false unsigned) something,
        if_neg (Nat.not_le.mpr word), if_neg (not_not_intro whole), if_pos large, Verdict.reading]
  | byte value unsigned something whole denoted =>
      have small := value.toNat_lt
      rw [ofDigits_of_unsigned positive (isSigned_eq_false unsigned) something, denoted,
        if_neg (by omega), if_neg (not_not_intro whole), if_neg (by omega), UInt8.ofNat_toNat,
        Verdict.reading]

/-- Some verdict fits whatever stands behind a mark. -/
theorem exists_fits {digits lead : List Char} (front : lead <+: digits) (number : Nat) :
    ∃ verdict, Fits digits lead number verdict := by
  by_cases sign : Signed digits
  · exact ⟨.signed, .signed sign⟩
  by_cases nothing : digits = []
  · exact ⟨.empty, .empty nothing⟩
  by_cases large : 2 ^ 32 ≤ number
  · exact ⟨.tooLarge, .tooLarge sign large⟩
  have word := Nat.not_le.mp large
  by_cases cut : lead.length < digits.length
  · exact ⟨.invalidDigit, .invalidDigit sign nothing word cut⟩
  have whole : lead = digits := front.eq_of_length_le (Nat.not_lt.mp cut)
  by_cases beyond : 256 ≤ number
  · exact ⟨.outOfRange, .outOfRange sign nothing whole beyond word⟩
  have small : number = (UInt8.ofNat number).toNat :=
    (UInt8.toNat_ofNat_of_lt' (Nat.not_le.mp beyond)).symm
  exact ⟨.byte (UInt8.ofNat number), .byte _ sign nothing whole small⟩

/-! ## Texts -/

theorem small_of_splitRadix {text digits : List Char} {radix : Nat}
    (split : splitRadix text = (radix, digits)) : 0 < radix ∧ radix ≤ 16 := by
  obtain ⟨mark, announced, _⟩ := exists_splitRadix text
  rw [split] at announced
  exact small_of_mem_marks announced

/-- Reading gives what a text deserves. -/
theorem read_of_deserves {text : String} {verdict : Verdict}
    (deserves : Deserves text.toList verdict) : ByteLiteral.read text = verdict.reading := by
  obtain ⟨radix, digits, lead, number, announces, leads, fits⟩ := deserves
  have split := announces_iff.mp announces
  obtain ⟨positive, small⟩ := small_of_splitRadix split
  obtain ⟨rfl, rfl⟩ := (leads_iff small).mp leads
  rw [ByteLiteral.read, split]
  exact ofDigits_of_fits positive fits

theorem exists_deserves (text : List Char) : ∃ verdict, Deserves text verdict := by
  rcases split : splitRadix (trim text) with ⟨radix, digits⟩
  obtain ⟨_, small⟩ := small_of_splitRadix split
  have leads : Leads radix digits (run radix digits) (amount radix (run radix digits)) :=
    (leads_iff small).mpr ⟨rfl, rfl⟩
  obtain ⟨verdict, fits⟩ := exists_fits leads.front _
  exact ⟨verdict, radix, digits, _, _, announces_iff.mpr split, leads, fits⟩

/-- Exactly one verdict fits a text, and that is the one that reading the text reports. -/
theorem each_text_deserves_one_verdict (text : String) :
    (∃! verdict, Deserves text.toList verdict) ∧
      ∀ verdict, Deserves text.toList verdict ↔
        (ByteLiteral.read text).mapError (Error.failure text) = verdict.report text := by
  have reported {verdict : Verdict} (deserves : Deserves text.toList verdict) :
      (ByteLiteral.read text).mapError (Error.failure text) = verdict.report text := by
    rw [read_of_deserves deserves, Verdict.report_eq]
  obtain ⟨verdict, deserves⟩ := exists_deserves text.toList
  have only {other : Verdict}
      (same : (ByteLiteral.read text).mapError (Error.failure text) = other.report text) :
      other = verdict :=
    Verdict.report_injective text (same.symm.trans (reported deserves))
  refine ⟨⟨verdict, deserves, fun other deserved => only (reported deserved)⟩, ?_⟩
  intro other
  constructor
  · exact reported
  · intro same
    rw [only same]
    exact deserves

-- What follows a number that is too large does not matter, and zeros in front add nothing to it.
example : ByteLiteral.read "4294967296x" = .error (.notANumber .tooLarge) ∧
    ByteLiteral.read "0x00000000000ffx" = .error (.notANumber .invalidDigit) := by
  constructor <;> cbv

end Opcodes.Proofs.Verdicts
