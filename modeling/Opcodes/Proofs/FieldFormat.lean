import Opcodes.Instruction

/-!
# Instructions in fields

A field shows the beginning of a mnemonic that its precision admits, in one
piece, with nothing but fill around it. The width, the shown text and the
offset at which it starts determine all characters of the field. A precision
drops the letters of the modes before it drops any character of the base.
-/

namespace Opcodes.Proofs.FieldFormat

/-! ## A text among fill -/

/-- The text stands at an offset, and everything before and behind it is fill. -/
structure StandsAt (fill : Char) (offset : Nat) (text whole : List Char) : Prop where
  inside : ∀ place < text.length, whole[offset + place]? = text[place]?
  outside : ∀ place < whole.length, place < offset ∨ offset + text.length ≤ place →
    whole[place]? = some fill

theorem standsAt_append (fill : Char) (before after : Nat) (text : List Char) :
    StandsAt fill before text
      (List.replicate before fill ++ text ++ List.replicate after fill) where
  inside place within := by
    rw [List.append_assoc, List.getElem?_append_right (by simp), List.length_replicate,
      Nat.add_sub_cancel_left, List.getElem?_append_left within]
  outside place within around := by
    rw [List.length_append, List.length_append, List.length_replicate,
      List.length_replicate] at within
    rcases around with ahead | behind
    · rw [List.append_assoc, List.getElem?_append_left (by simpa using ahead),
        List.getElem?_replicate_of_lt ahead]
    · rw [List.getElem?_append_right (by simpa using behind), List.length_append,
        List.length_replicate, List.getElem?_replicate_of_lt (by omega)]

/-- Only one text of a given length has another one at an offset among fill. -/
theorem StandsAt.unique {fill : Char} {offset : Nat} {text first second : List Char}
    (stands : StandsAt fill offset text first) (stands' : StandsAt fill offset text second)
    (lengths : first.length = second.length) : first = second := by
  refine List.ext_getElem? fun place => ?_
  by_cases within : place < first.length
  · by_cases around : place < offset ∨ offset + text.length ≤ place
    · rw [stands.outside place within around, stands'.outside place (lengths ▸ within) around]
    · have covered : place = offset + (place - offset) := by omega
      have shown : place - offset < text.length := by omega
      rw [covered, stands.inside _ shown, stands'.inside _ shown]
  · rw [List.getElem?_eq_none (by omega), List.getElem?_eq_none (by omega)]

/-! ## Fields -/

/-- The field with some properties; without an alignment it puts its text to the left. -/
def field (width : Nat) (precision : Option Nat) (fill : Char)
    (alignment : Option Text.Alignment) : Text.Field :=
  ⟨width, precision, fill, alignment.getD .left⟩

/-- The field that nothing has been asked of: it holds a text as it stands. -/
def bare : Text.Field :=
  field 0 none ' ' none

/-- The characters of the mnemonic that a precision admits. -/
def shown (precision : Option Nat) (instruction : Instruction) : List Char :=
  precision.elim instruction.text.toList fun count => instruction.text.toList.take count

/-- Where a text of some length starts in a field of some width. -/
def offset (width length : Nat) : Option Text.Alignment → Nat
  | none => 0
  | some .left => 0
  | some .right => width - length
  | some .center => (width - length) / 2

variable {width : Nat} {precision : Option Nat} {fill : Char} {alignment : Option Text.Alignment}

theorem kept_field (instruction : Instruction) :
    (field width precision fill alignment).kept instruction.text.toList =
      shown precision instruction := by
  cases precision <;> rfl

theorem length_format (instruction : Instruction) :
    (instruction.format (field width precision fill alignment)).length =
      max width (shown precision instruction).length := by
  rw [Instruction.format, ← String.length_toList, Text.Field.toList_fit, Text.Field.length_chars,
    kept_field]
  rfl

theorem before_eq_offset (length : Nat) :
    (alignment.getD .left).before (width - length) = offset width length alignment := by
  cases alignment with
  | none => rfl
  | some alignment => cases alignment <;> rfl

theorem standsAt_format (instruction : Instruction) :
    StandsAt fill (offset width (shown precision instruction).length alignment)
      (shown precision instruction)
      (instruction.format (field width precision fill alignment)).toList := by
  rw [Instruction.format, Text.Field.toList_fit, Text.Field.chars, Text.Field.missing, kept_field,
    ← before_eq_offset]
  exact standsAt_append _ _ _ _

/-- A field is determined by its width, the shown text and where it stands. -/
theorem format_eq_iff (instruction : Instruction) (output : String) :
    instruction.format (field width precision fill alignment) = output ↔
      output.length = max width (shown precision instruction).length ∧
        StandsAt fill (offset width (shown precision instruction).length alignment)
          (shown precision instruction) output.toList := by
  constructor
  · rintro rfl
    exact ⟨length_format instruction, standsAt_format instruction⟩
  · rintro ⟨length, stands⟩
    refine String.toList_inj.mp ((standsAt_format instruction).unique stands ?_)
    rw [String.length_toList, String.length_toList, length, length_format]

theorem format_bare (instruction : Instruction) : instruction.format bare = instruction.text := by
  rw [← String.toList_inj, Instruction.format, show bare = .column 0 from rfl,
    Text.Field.toList_fit_column, Nat.zero_sub, List.replicate_zero, List.append_nil]

theorem cell_eq (instruction : Instruction) :
    instruction.cell = instruction.format (field 8 none ' ' (some .left)) :=
  rfl

/-- A precision leaves letters of the modes only behind the whole base. -/
theorem shown_composed (base : String) (modes : Modes) (count : Nat) :
    shown (some count) (.composed base modes) =
      base.toList.take count ++ modes.suffix.toList.take (count - base.length) := by
  have whole : (Instruction.composed base modes).text.toList =
      base.toList ++ modes.suffix.toList :=
    String.toList_append
  rw [shown, Option.elim_some, whole, List.take_append, String.length_toList]

/-- A formatted instruction is as wide as its field or its shown text, shows that text whole at the
offset of its alignment, and is fill elsewhere. A precision shortens the modes before the base, the
text of an instruction decides about all formats, and a cell never shortens it. -/
theorem fields_show_mnemonics :
    (∀ (instruction : Instruction) width precision fill alignment output,
      instruction.format (field width precision fill alignment) = output ↔
        output.length = max width (shown precision instruction).length ∧
          StandsAt fill (offset width (shown precision instruction).length alignment)
            (shown precision instruction) output.toList) ∧
      (∀ base modes count,
        shown (some count) (.composed base modes) =
          base.toList.take count ++ modes.suffix.toList.take (count - base.length)) ∧
      (∀ first second : Instruction, first.format bare = second.format bare →
        ∀ shape, first.format shape = second.format shape) ∧
      ∀ instruction : Instruction,
        instruction.cell = instruction.format (field 8 none ' ' (some .left)) ∧
          instruction.text.toList <+: instruction.cell.toList := by
  refine ⟨fun instruction _ _ _ _ output => format_eq_iff instruction output, shown_composed,
    fun first second same shape => ?_, fun instruction => ⟨cell_eq instruction, ?_⟩⟩
  · rw [format_bare, format_bare] at same
    rw [Instruction.format, Instruction.format, same]
  · rw [Instruction.toList_cell]
    exact List.prefix_append _ _

-- The precision takes the wide mode away, and the odd fill character goes behind the text.
example : (Instruction.composed "Éa" (Modes.ofByte 0xa0)).format
    (field 6 (some 3) '*' (some .center)) = "*Éak**" := by
  decide

end Opcodes.Proofs.FieldFormat
