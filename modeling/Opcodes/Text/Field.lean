/-!
# Text in a field of given width

A field cuts its text to a precision, if it has one, and then pads it with a
fill character up to its width. Both are counted in characters. The width
never cuts and the precision never pads.
-/

namespace Opcodes.Text

/-- Where a field puts a text that is shorter than its width. -/
inductive Alignment where
  | left
  | right
  | center
deriving DecidableEq, Repr

/-- How many of the missing characters go before the text; the odd one goes after it. -/
def Alignment.before : Alignment → Nat → Nat
  | left, _ => 0
  | right, missing => missing
  | center, missing => missing / 2

theorem Alignment.before_le (alignment : Alignment) (missing : Nat) :
    alignment.before missing ≤ missing := by
  cases alignment <;> simp only [before] <;> omega

structure Field where
  width : Nat
  precision : Option Nat
  fill : Char
  alignment : Alignment
deriving DecidableEq, Repr

namespace Field

/-- A field that puts its text to the left and fills up with blanks. -/
def column (width : Nat) : Field :=
  ⟨width, none, ' ', .left⟩

/-- The leading characters that the precision admits. -/
def kept (field : Field) (text : List Char) : List Char :=
  match field.precision with
  | none => text
  | some count => text.take count

/-- How many characters the kept ones fall short of the width. -/
def missing (field : Field) (text : List Char) : Nat :=
  field.width - (field.kept text).length

/-- The characters of the field that holds a text. -/
def chars (field : Field) (text : List Char) : List Char :=
  let before := field.alignment.before (field.missing text)
  List.replicate before field.fill ++ field.kept text ++
    List.replicate (field.missing text - before) field.fill

def fit (field : Field) (text : String) : String :=
  String.ofList (field.chars text.toList)

theorem length_chars (field : Field) (text : List Char) :
    (field.chars text).length = max field.width (field.kept text).length := by
  have bound := field.alignment.before_le (field.missing text)
  simp only [chars, List.length_append, List.length_replicate]
  simp only [missing] at *
  omega

@[simp]
theorem toList_fit (field : Field) (text : String) :
    (field.fit text).toList = field.chars text.toList := by
  simp [fit]

/-- A column holds the whole text, with blanks behind it. -/
theorem toList_fit_column (width : Nat) (text : String) :
    ((column width).fit text).toList =
      text.toList ++ List.replicate (width - text.length) ' ' := by
  rw [toList_fit, ← String.length_toList]
  rfl

end Field

end Opcodes.Text
