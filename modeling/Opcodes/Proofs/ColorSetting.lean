import Opcodes.Proofs.Accounts
import Opcodes.Proofs.ListingColors
import Opcodes.Proofs.Requests

/-!
# The setting for colours

The choice of colours in front of a command has no part in how the words behind
it are read, nor in what is reported of them. All that it decides is whether
escape sequences are printed, of which two of the commands print none.
-/

namespace Opcodes.Proofs.ColorSetting

open Accounts Browse CommandLine EscapeSequences Identifiers Listing ListingColors PrintedText
open Requests

/-! ## Media -/

theorem join_render (medium : Medium) (documents : List Document) :
    String.join (documents.map (Document.render medium)) =
      Document.render medium ⟨documents.flatMap Document.spans, none, .full⟩ := by
  rw [← String.toList_inj, String.toList_join, List.flatMap_map, toList_render,
    List.flatMap_assoc]
  simp only [toList_render]

/-- Whether there are colours shows in nothing but escape sequences. -/
theorem perform_terminal {naming : Naming} {table : Table} {command : Command}
    (free : ∀ document ∈ documents naming table command, ∀ span ∈ document.spans,
      '\x1b' ∉ span.text.toList) :
    (perform .terminal naming table command).status =
        (perform .plain naming table command).status ∧
      (perform .terminal naming table command).errors =
        (perform .plain naming table command).errors ∧
      withoutSequences (perform .terminal naming table command).output =
        (perform .plain naming table command).output := by
  have shown : withoutSequences
      (String.join ((documents naming table command).map (Document.render .terminal))) =
        String.join ((documents naming table command).map (Document.render .plain)) := by
    rw [join_render, join_render]
    refine withoutSequences_render fun span member => ?_
    obtain ⟨document, inside, within⟩ := List.mem_flatMap.mp member
    exact free document inside span within
  unfold perform
  dsimp only
  cases (documents naming table command).findSome? fun document => document.complaint with
  | none => exact ⟨rfl, rfl, shown⟩
  | some complaint => exact ⟨rfl, rfl, shown⟩

/-- Without styles, media do not differ. -/
theorem perform_of_unstyled {naming : Naming} {table : Table} {command : Command}
    (unstyled : ∀ document ∈ documents naming table command, ∀ span ∈ document.spans,
      span.style = none) (medium other : Medium) :
    perform medium naming table command = perform other naming table command := by
  have same : (documents naming table command).map (Document.render medium) =
      (documents naming table command).map (Document.render other) := by
    refine List.map_congr_left fun document inside => congrArg String.join ?_
    refine List.map_congr_left fun span within => ?_
    have plain := unstyled document inside span within
    unfold Span.render
    rw [plain]
    cases medium <;> cases other <;> rfl
  simp only [perform, same]

/-! ## What the commands show -/

theorem unstyled_lookup (naming : Naming) (table : Table) (bytes : List UInt8) :
    ∀ document ∈ documents naming table (.lookup bytes), ∀ span ∈ document.spans,
      span.style = none := by
  intro document member span within
  obtain ⟨byte, _, rfl⟩ := List.mem_map.mp member
  obtain ⟨line, _, rfl⟩ := List.mem_map.mp within
  rfl

theorem unstyled_find (naming : Naming) (table : Table) (mnemonics : List String) :
    ∀ document ∈ documents naming table (.find mnemonics), ∀ span ∈ document.spans,
      span.style = none := by
  intro document member span within
  obtain rfl := List.mem_singleton.mp member
  obtain ⟨mnemonic, _, line⟩ := List.mem_filterMap.mp within
  obtain ⟨byte, _, rfl⟩ := Option.map_eq_some_iff.mp line
  rfl

/-- The documents of the machine hold no escape characters. -/
theorem free_documents (command : Command) :
    ∀ document ∈ documents Avc2.naming Avc2.table command, ∀ span ∈ document.spans,
      '\x1b' ∉ span.text.toList := by
  intro document member span within
  cases command with
  | grid =>
      obtain rfl := List.mem_singleton.mp member
      exact ((shows_of_mem .grid Avc2.table span within).clean bare_avc2).free
  | list all =>
      obtain rfl := List.mem_singleton.mp member
      exact ((shows_of_mem (.lines all) Avc2.table span within).clean bare_avc2).free
  | lookup bytes =>
      obtain ⟨byte, _, rfl⟩ := List.mem_map.mp member
      obtain ⟨line, inside, rfl⟩ := List.mem_map.mp within
      have printable := printable_lines legible_avc2 byte line inside
      rw [Lookup.line, String.toList_append, List.mem_append, not_or]
      exact ⟨printable.not_mem (by decide), by decide⟩
  | find mnemonics =>
      obtain rfl := List.mem_singleton.mp member
      obtain ⟨mnemonic, _, line⟩ := List.mem_filterMap.mp within
      obtain ⟨byte, owns, rfl⟩ := Option.map_eq_some_iff.mp line
      have printable := printable_of_isIdentifier (usesIdentifiers_avc2.found owns)
      have blank : Printable " " := by decide
      have answer := (printable.append blank).append (printable_marked byte)
      rw [String.toList_append, List.mem_append, not_or]
      exact ⟨answer.not_mem (by decide), by decide⟩

/-! ## Whole runs -/

/-- The commands of the program that show something. -/
def showing : List String :=
  ["grid", "list", "lookup", "find"]

theorem mem_commands {name : String} (known : name ∈ showing) : name ∈ topLevel.commands :=
  List.mem_append_left ["help"] known

/-- What a run leaves behind is up to its command and to the medium. -/
def runOn (medium : Medium) : Except Stop Command → Run
  | .error stop => .ofStop stop
  | .ok command => perform medium Avc2.naming Avc2.table command

theorem run_command {name : String} (known : name ∈ showing) (words : List String) :
    run false (name :: words) = runOn .plain (readCommand name words) := by
  rw [run, readRequest_command (mem_commands known)]
  cases readCommand name words <;> rfl

theorem run_colored {keyword : String} {coloring : Coloring}
    (chosen : (keyword, coloring) ∈ Coloring.choices) {name : String} (known : name ∈ showing)
    (words : List String) :
    run false ("--color" :: keyword :: name :: words) =
      runOn (medium false coloring) (readCommand name words) := by
  rw [run, readRequest_colored chosen (mem_commands known)]
  cases readCommand name words <;> rfl

theorem runOn_terminal {read : Except Stop Command}
    (uninformed : ∀ text, read ≠ .error (.informed text)) :
    (runOn .terminal read).status = (runOn .plain read).status ∧
      (runOn .terminal read).errors = (runOn .plain read).errors ∧
      withoutSequences (runOn .terminal read).output = (runOn .plain read).output := by
  match read with
  | .ok command => exact perform_terminal (free_documents command)
  | .error (.refused error) =>
      have unprinted : withoutSequences "" = "" := by decide
      exact ⟨rfl, rfl, unprinted⟩
  | .error (.informed text) => exact absurd rfl (uninformed text)

/-- Commands that show bytes or mnemonics one by one use no colours. -/
theorem runOn_unstyled {name : String} (uncolored : name = "lookup" ∨ name = "find")
    (words : List String) (one other : Medium) :
    runOn one (readCommand name words) = runOn other (readCommand name words) := by
  rcases uncolored with rfl | rfl
  · simp only [readCommand]
    cases lookupLevel.read [] words with
    | error stop => rfl
    | ok bytes => exact perform_of_unstyled (unstyled_lookup _ _ bytes) one other
  · simp only [readCommand]
    cases findLevel.read [] words with
    | error stop => rfl
    | ok mnemonics => exact perform_of_unstyled (unstyled_find _ _ mnemonics) one other

/-- Where the output is no terminal, the choice of colours adds escape sequences at most. -/
theorem coloring_is_inert {name : String} (known : name ∈ showing) (words : List String)
    (uninformed : ∀ text, readRequest (name :: words) ≠ .error (.informed text)) :
    run false ("--color" :: "auto" :: name :: words) = run false (name :: words) ∧
    run false ("--color" :: "never" :: name :: words) = run false (name :: words) ∧
    (run false ("--color" :: "always" :: name :: words)).status =
      (run false (name :: words)).status ∧
    (run false ("--color" :: "always" :: name :: words)).errors =
      (run false (name :: words)).errors ∧
    withoutSequences (run false ("--color" :: "always" :: name :: words)).output =
      (run false (name :: words)).output ∧
    (name = "lookup" ∨ name = "find" →
      run false ("--color" :: "always" :: name :: words) = run false (name :: words)) := by
  have unasked : ∀ text, readCommand name words ≠ .error (.informed text) := by
    intro text informed
    refine uninformed text ?_
    rw [readRequest_command (mem_commands known), informed]
    rfl
  have auto : ("auto", Coloring.auto) ∈ Coloring.choices := by decide
  have never : ("never", Coloring.never) ∈ Coloring.choices := by decide
  have always : ("always", Coloring.always) ∈ Coloring.choices := by decide
  obtain ⟨status, errors, output⟩ := runOn_terminal unasked
  rw [run_command known, run_colored auto known, run_colored never known,
    run_colored always known]
  exact ⟨rfl, rfl, status, errors, output,
    fun uncolored => runOn_unstyled uncolored words .terminal .plain⟩

/-- Colours are chosen in front of a list of all bytes. -/
theorem list_coloring_is_inert :
    run false ["--color", "auto", "list", "--all"] = run false ["list", "--all"] ∧
    run false ["--color", "never", "list", "--all"] = run false ["list", "--all"] ∧
    withoutSequences (run false ["--color", "always", "list", "--all"]).output =
      (run false ["list", "--all"]).output := by
  have read : readRequest ["list", "--all"] = .ok ⟨.auto, .list true⟩ := rfl
  have uninformed : ∀ text, readRequest ["list", "--all"] ≠ .error (.informed text) := by
    intro text informed
    rw [read] at informed
    cases informed
  obtain ⟨auto, never, _, _, output, _⟩ :=
    coloring_is_inert (by decide : "list" ∈ showing) ["--all"] uninformed
  exact ⟨auto, never, output⟩

end Opcodes.Proofs.ColorSetting
