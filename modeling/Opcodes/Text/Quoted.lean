/-!
# Text literals

A program text quotes a text between double quotes. A character that could not
stand there as it is, because it would end the literal, begin an escape or not
be seen, is written as a backslash and another character.
-/

namespace Opcodes.Text.Quoted

/-- The characters that are escaped, each with what stands for it behind the backslash. -/
def escapes : List (Char × Char) :=
  [('\n', 'n'), ('\r', 'r'), ('\t', 't'), ('\\', '\\'), ('\x00', '0'), ('"', '"')]

def escape (character : Char) : List Char :=
  match escapes.lookup character with
  | none => [character]
  | some letter => ['\\', letter]

def literal (text : String) : String :=
  String.ofList ('"' :: text.toList.flatMap escape ++ ['"'])

theorem escape_of_isAlphanum {character : Char} (plain : character.isAlphanum = true) :
    escape character = [character] := by
  have others : ∀ entry ∈ escapes, entry.1.isAlphanum = false := by
    decide
  have unlisted : escapes.lookup character = none := by
    refine List.lookup_eq_none_iff.mpr fun entry listed => bne_iff_ne.mpr ?_
    rintro rfl
    rw [others entry listed] at plain
    cases plain
  rw [escape, unlisted]

/-- Letters and digits are quoted as they are. -/
theorem literal_of_isAlphanum {text : String}
    (plain : ∀ character ∈ text.toList, character.isAlphanum = true) :
    literal text = "\"" ++ text ++ "\"" := by
  have kept : text.toList.flatMap escape = text.toList := by
    have each : text.toList.map escape = text.toList.map fun character => [character] :=
      List.map_congr_left fun character member => escape_of_isAlphanum (plain character member)
    rw [List.flatMap_def, each, ← List.flatMap_def, List.flatMap_singleton']
  rw [literal, kept, String.ext_iff]
  simp

example : literal "A\"\\\n" = "\"A\\\"\\\\\\n\"" := by
  decide

end Opcodes.Text.Quoted
