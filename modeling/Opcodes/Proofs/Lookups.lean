import Opcodes.Proofs.Accounts
import Opcodes.Proofs.Refusals
import Opcodes.Proofs.Requests

/-!
# Looking bytes up

Every operand is read before anything is printed. If all of them write bytes,
their accounts are printed in order, from which the bytes can be read again; if
not, the first that writes none is reported and nothing is printed.
-/

namespace Opcodes.Proofs.Lookups

open Accounts Browse CommandLine PrintedText Refusals Requests
open Text.Control (visible)

/-! ## What is told of a word that writes no byte -/

/-- What is wrong with a word is told around it, on one line. -/
theorem message_eq (word : String) (error : ByteLiteral.Error) :
    ∃ before after : String, error.message word = before ++ word ++ after ∧
      Plain before ∧ Plain after ∧ ∃ last ∈ after.toList.getLast?, last ≠ '\r' := by
  cases error with
  | signed =>
      exact ⟨"'", "' must not carry a sign", rfl, by decide, by decide, 'n', by decide, by decide⟩
  | notANumber cause =>
      exact ⟨"'", "' is not a number", rfl, by decide, by decide, 'r', by decide, by decide⟩
  | outOfRange =>
      refine ⟨"", " is out of range, opcodes are 0..=255", ?_, by decide, by decide, '5',
        by decide, by decide⟩
      rw [String.empty_append]
      rfl

theorem plain_message {word : String} (plain : Plain word) (error : ByteLiteral.Error) :
    Plain (error.message word) := by
  obtain ⟨before, after, spelled, one, other, _⟩ := message_eq word error
  rw [spelled]
  exact (one.append plain).append other

theorem told_unreturned (value label word : String) (error : ByteLiteral.Error) :
    (told value label (error.message word)).toList.getLast? ≠ some '\r' := by
  obtain ⟨before, after, spelled, _, _, last, ended, other⟩ := message_eq word error
  rw [spelled, told_append, String.toList_append, List.getLast?_append,
    Option.mem_def.mp ended, Option.some_or]
  exact fun same => other (Option.some.inj same)

/-- What is told of a word that writes no byte. -/
def complaint (word : String) (error : ByteLiteral.Error) : String :=
  (UsageError.invalidValue word "<BYTES>..." (some (error.message word))).message

theorem complaint_eq (word : String) (error : ByteLiteral.Error) :
    complaint word error = told (visible word) "<BYTES>..."
      (visible (error.message word ++ advice)) ++ "--help'.\n" := by
  have label : visible "<BYTES>..." = "<BYTES>..." := Plain.visible (by decide)
  rw [complaint, message_invalidValue, label]

/-- A word without control characters is told as it was given. -/
theorem complaint_of_plain {word : String} (plain : Plain word)
    (error : ByteLiteral.Error) :
    complaint word error =
      told word "<BYTES>..." (error.message word) ++ (advice ++ "--help'.\n") :=
  message_of_plain plain (by decide) (plain_message plain error)

theorem firstLine_complaint {word : String} (plain : Plain word)
    (error : ByteLiteral.Error) :
    Run.firstLine (complaint word error).toList =
      Run.firstLine (told word "<BYTES>..." (error.message word)).toList := by
  have parted : (advice ++ "--help'.\n").toList =
      '\n' :: "\nFor more information, try '--help'.\n".toList := by
    decide
  rw [complaint_of_plain plain, String.toList_append, parted]
  exact firstLine_append (told_unreturned word _ word error) _

/-! ## Whole runs -/

theorem perform_lookup (medium : Medium) (naming : Naming) (table : Table)
    (bytes : List UInt8) :
    perform medium naming table (.lookup bytes) =
      .success (accounts naming table bytes) "" := by
  have uncomplaining : (bytes.map (Listing.Lookup.document naming table)).findSome?
      (fun document => document.complaint) = none := by
    simp [List.findSome?_map, Listing.Lookup.document]
  have shown : (bytes.map (Listing.Lookup.document naming table)).map (Document.render medium) =
      bytes.map fun byte => (Listing.Lookup.document naming table byte).render .plain := by
    simp only [List.map_map, Function.comp_def, render_lookup]
  simp only [perform, documents, uncomplaining, remarks, shown, accounts]

theorem run_lookup {arguments : List String} {coloring : Coloring} {bytes : List UInt8}
    (asked : readRequest arguments = .ok ⟨coloring, .lookup bytes⟩) (terminal : Bool) :
    run terminal arguments = .success (accounts Avc2.naming Avc2.table bytes) "" := by
  rw [run, asked]
  exact perform_lookup _ _ _ _

theorem readRequest_written {words : List String} (nonempty : words ≠ [])
    (undashed : ∀ word ∈ words, Undashed word) {bytes : List UInt8}
    (written : Written words bytes) :
    readRequest ("lookup" :: words) = .ok ⟨.auto, .lookup bytes⟩ := by
  rw [readRequest_command (by decide), readCommand_written nonempty undashed written]
  rfl

theorem run_refused {words : List String} (undashed : ∀ word ∈ words, Undashed word)
    {word : String} {error : ByteLiteral.Error} (refused : FirstRefused word error words)
    (terminal : Bool) :
    run terminal ("lookup" :: words) = ⟨2, "", complaint word error⟩ := by
  rw [run, readRequest_command (by decide), readCommand_refused undashed refused]
  rfl

theorem written_marked (bytes : List UInt8) :
    Written (bytes.map Text.Hex.marked) bytes := by
  rw [Written, List.forall₂_map_left_iff, List.forall₂_same]
  exact fun byte _ => HexText.read_marked byte

/-- All bytes are accounted for in order, or the first word that writes none is told of. -/
theorem lookup_prints_all_or_refuses_first (terminal : Bool) (words : List String)
    (nonempty : words ≠ []) (undashed : ∀ word ∈ words, Undashed word) :
    ((∃ bytes, Written words bytes) ∨ ∃ word error, FirstRefused word error words) ∧
    (∀ bytes, Written words bytes →
      run terminal ("lookup" :: words) = ⟨0, accounts Avc2.naming Avc2.table bytes, ""⟩ ∧
      (titles (accounts Avc2.naming Avc2.table bytes)).map (fun line => (columns line).head?) =
        (bytes.map Text.Hex.marked).map some ∧
      Written (bytes.map Text.Hex.marked) bytes) ∧
    (∀ word error, FirstRefused word error words →
      run terminal ("lookup" :: words) =
        ⟨2, "", told (visible word) "<BYTES>..." (visible (error.message word ++ advice)) ++
          "--help'.\n"⟩ ∧
      (Plain word →
        (run terminal ("lookup" :: words)).firstErrorLine =
          String.ofList (Run.firstLine
            (told word "<BYTES>..." (error.message word)).toList))) := by
  refine ⟨written_or_refused words, fun bytes written => ?_, fun word error refused => ?_⟩
  · have asked := readRequest_written nonempty undashed written
    exact ⟨run_lookup asked terminal, firstColumns_accounts legible_avc2 bytes,
      written_marked bytes⟩
  · have told := run_refused undashed refused terminal
    refine ⟨told.trans ?_, fun plain => ?_⟩
    · rw [complaint_eq]
    · rw [Run.firstErrorLine, told, firstLine_complaint plain]

/-- A byte that is asked for twice is accounted for twice, and a sign is told of. -/
theorem lookup_prints_repeats_or_refuses_sign :
    run false ["lookup", "131", " $84 ", "0x83"] =
      ⟨0, accounts Avc2.naming Avc2.table [0x83, 0x84, 0x83], ""⟩ ∧
    (run false ["lookup", "5", "+7", "x"]).firstErrorLine =
      "error: invalid value '+7' for '<BYTES>...': '+7' must not carry a sign" := by
  have printed := (lookup_prints_all_or_refuses_first false ["131", " $84 ", "0x83"]
    (by decide) (by decide)).2.1 [0x83, 0x84, 0x83] (.cons rfl (.cons rfl (.cons rfl .nil)))
  have refused := (lookup_prints_all_or_refuses_first false ["5", "+7", "x"]
    (by decide) (by decide)).2.2 "+7" .signed (.behind rfl (.here ["x"] rfl))
  refine ⟨printed.1, (refused.2 (by decide)).trans ?_⟩
  unfold told
  simp only [ByteLiteral.Error.message, String.reduceAppend]
  decide

/-- A word that opens a sequence hides the rest of the line that should tell of it. -/
theorem lookup_hides_reason :
    ByteLiteral.read "x\x1b]0;t" = .error (.notANumber .invalidDigit) ∧
    (run false ["lookup", "x\x1b]0;t"]).firstErrorLine =
      "error: invalid value 'x' for '<BYTES>...': 'x--help'." ∧
    (run false ["lookup", "x\x1b]0;t"]).firstErrorLine ≠
      String.ofList (Run.firstLine (told "x\x1b]0;t" "<BYTES>..."
        ((ByteLiteral.Error.notANumber .invalidDigit).message "x\x1b]0;t")).toList) := by
  have refused : ByteLiteral.read "x\x1b]0;t" = .error (.notANumber .invalidDigit) := by
    decide
  have shown : visible "x\x1b]0;t" = "x" := by decide
  have reason : visible ("'x\x1b]0;t' is not a number" ++ advice) = "'x" := by decide
  have displayed : (run false ["lookup", "x\x1b]0;t"]).firstErrorLine =
      "error: invalid value 'x' for '<BYTES>...': 'x--help'." := by
    rw [run_refused (by decide) (.here [] refused), Run.firstErrorLine, complaint_eq]
    unfold told
    simp only [ByteLiteral.Error.message, String.reduceAppend, shown, reason]
    decide
  refine ⟨refused, displayed, ?_⟩
  rw [displayed]
  unfold told
  simp only [ByteLiteral.Error.message, String.reduceAppend]
  decide

end Opcodes.Proofs.Lookups
