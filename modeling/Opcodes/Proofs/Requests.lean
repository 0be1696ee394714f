import Mathlib.Data.List.Forall2
import Opcodes.Browse

/-!
# What the browsing program is asked

A command that is not preceded by a setting is read with the standard setting,
and one behind a choice of colours with that choice; what stands behind the
command is read in the same way. Words that do not start with a dash are
operands, which are accepted in turn up to the first that is refused.
-/

namespace Opcodes.Proofs.Requests

open Browse CommandLine

/-! ## Operands -/

/-- A word that does not start like a switch. -/
def Undashed (word : String) : Prop :=
  word.toList.head? ≠ some '-'

instance {word : String} : Decidable (Undashed word) :=
  inferInstanceAs (Decidable (word.toList.head? ≠ some '-'))

section Operands

variable {Settings : Type} {level : Level Settings} {operands : Operands Settings}

theorem take_undashed {progress : Progress Settings} (unescaped : progress.escaped = false)
    {word : String} (undashed : Undashed word) :
    level.take progress word = level.takePlain progress word := by
  unfold Level.take
  rw [unescaped, if_neg Bool.false_ne_true]
  split
  case h_4 => rfl
  all_goals
    rename_i same
    simp [Undashed, same] at undashed

/-- How far the reading has come when it has met some operands and nothing else. -/
def collecting (operands : Operands Settings) (settings : Settings) (given : List String) :
    Progress Settings :=
  { settings, pending := .operands operands given }

theorem isCommand_bare (bare : level.commands = []) (progress : Progress Settings)
    (word : String) : level.isCommand progress word = false := by
  simp [Level.isCommand, bare]

theorem take_first (takes : level.operands = some operands) (settings : Settings)
    {word : String} (undashed : Undashed word) :
    level.take (.start settings) word = .ok (collecting operands settings [word]) := by
  rw [take_undashed rfl undashed]
  simp only [Level.takePlain, Level.takeOperand, Progress.start, Progress.settle, takes]
  rfl

theorem take_next (takes : level.operands = some operands) (settings : Settings)
    (given : List String) {word : String} (undashed : Undashed word) :
    level.take (collecting operands settings given) word =
      .ok (collecting operands settings (given ++ [word])) := by
  rw [take_undashed rfl undashed]
  simp only [Level.takePlain, Level.takeOperand, collecting, takes]

theorem walk_operands (takes : level.operands = some operands) (bare : level.commands = [])
    (settings : Settings) (given : List String) {words : List String}
    (undashed : ∀ word ∈ words, Undashed word) :
    level.walk (collecting operands settings given) words =
      .ok (collecting operands settings (given ++ words), none) := by
  induction words generalizing given with
  | nil => rw [Level.walk, List.append_nil]
  | cons word rest ih =>
      have later := ih (given ++ [word]) fun other member =>
        undashed other (List.mem_cons_of_mem _ member)
      rw [Level.walk, isCommand_bare bare, if_neg Bool.false_ne_true,
        take_next takes settings given (undashed word List.mem_cons_self)]
      simpa using later

theorem finish_collecting (takes : level.operands = some operands) (settings : Settings)
    (given : List String) :
    (level.finish (collecting operands settings given)).map Progress.settings =
      Progress.acceptAll operands settings given := by
  simp only [Level.finish, collecting, Progress.settle]
  cases Progress.acceptAll operands settings given with
  | error stop => rfl
  | ok later => simp [takes, Except.map]

/-- A level reads words that are all operands by accepting them in turn. -/
theorem read_operands (takes : level.operands = some operands) (bare : level.commands = [])
    (settings : Settings) {words : List String} (nonempty : words ≠ [])
    (undashed : ∀ word ∈ words, Undashed word) :
    level.read settings words = Progress.acceptAll operands settings words := by
  cases words with
  | nil => contradiction
  | cons word rest =>
      have walked := walk_operands takes bare settings [word] fun other member =>
        undashed other (List.mem_cons_of_mem _ member)
      have finished := finish_collecting takes settings (word :: rest)
      rw [Level.read, Level.walk, isCommand_bare bare, if_neg Bool.false_ne_true,
        take_first takes settings (undashed word List.mem_cons_self)]
      simp only [walked, List.singleton_append]
      rw [← finished]
      cases level.finish (collecting operands settings (word :: rest)) <;> rfl

end Operands

/-- Each of the words writes the byte in its place. -/
def Written (words : List String) (bytes : List UInt8) : Prop :=
  List.Forall₂ (fun word byte => ByteLiteral.read word = .ok byte) words bytes

/-- The first of some words that writes no byte, and what is wrong with it. -/
inductive FirstRefused (word : String) (error : ByteLiteral.Error) : List String → Prop where
  | here (after : List String) (refused : ByteLiteral.read word = .error error) :
      FirstRefused word error (word :: after)
  | behind {other : String} {byte : UInt8} {rest : List String}
      (accepted : ByteLiteral.read other = .ok byte) (later : FirstRefused word error rest) :
      FirstRefused word error (other :: rest)

theorem written_or_refused (words : List String) :
    (∃ bytes, Written words bytes) ∨ ∃ word error, FirstRefused word error words := by
  induction words with
  | nil => exact .inl ⟨[], .nil⟩
  | cons word rest ih =>
      cases outcome : ByteLiteral.read word with
      | error error => exact .inr ⟨word, error, .here rest outcome⟩
      | ok byte =>
          rcases ih with ⟨bytes, written⟩ | ⟨refused, error, later⟩
          · exact .inl ⟨byte :: bytes, .cons outcome written⟩
          · exact .inr ⟨refused, error, .behind outcome later⟩

theorem acceptAll_written {operands : Operands (List UInt8)}
    (takes : lookupLevel.operands = some operands) (seen : List UInt8) {words : List String}
    {bytes : List UInt8} (written : Written words bytes) :
    Progress.acceptAll operands seen words = .ok (seen ++ bytes) := by
  induction written generalizing seen with
  | nil => rw [Progress.acceptAll, List.append_nil]
  | cons first _ ih =>
      cases takes
      rw [Progress.acceptAll]
      simp only [first]
      rw [ih, List.append_assoc]
      rfl

/-- Operands that write bytes are accepted up to the first that does not. -/
theorem acceptAll_refused {operands : Operands (List UInt8)}
    (takes : lookupLevel.operands = some operands) (seen : List UInt8) {words : List String}
    {word : String} {error : ByteLiteral.Error} (refused : FirstRefused word error words) :
    Progress.acceptAll operands seen words =
      Progress.refuse (.invalidValue word operands.label (some (error.message word))) := by
  induction refused generalizing seen with
  | here after outcome =>
      cases takes
      rw [Progress.acceptAll]
      simp only [outcome]
  | @behind _ byte _ accepted _ ih =>
      cases takes
      rw [Progress.acceptAll]
      simp only [accepted]
      exact ih (seen ++ [byte])

theorem acceptAll_mnemonics {operands : Operands (List String)}
    (takes : findLevel.operands = some operands) (seen words : List String) :
    Progress.acceptAll operands seen words = .ok (seen ++ words) := by
  cases takes
  induction words generalizing seen with
  | nil => rw [Progress.acceptAll, List.append_nil]
  | cons word rest ih =>
      rw [Progress.acceptAll]
      simp only [ih, List.append_assoc, List.singleton_append]

theorem readCommand_written {words : List String} (nonempty : words ≠ [])
    (undashed : ∀ word ∈ words, Undashed word) {bytes : List UInt8}
    (written : Written words bytes) : readCommand "lookup" words = .ok (.lookup bytes) := by
  simp only [readCommand]
  rw [read_operands rfl rfl [] nonempty undashed, acceptAll_written rfl [] written]
  rfl

theorem readCommand_refused {words : List String} (undashed : ∀ word ∈ words, Undashed word)
    {word : String} {error : ByteLiteral.Error} (refused : FirstRefused word error words) :
    readCommand "lookup" words = Progress.refuse
      (.invalidValue word "<BYTES>..." (some (error.message word))) := by
  have nonempty : words ≠ [] := by
    rintro rfl
    cases refused
  simp only [readCommand]
  rw [read_operands rfl rfl [] nonempty undashed, acceptAll_refused rfl [] refused]
  rfl

theorem readCommand_mnemonics {words : List String} (nonempty : words ≠ [])
    (undashed : ∀ word ∈ words, Undashed word) :
    readCommand "find" words = .ok (.find words) := by
  simp only [readCommand]
  rw [read_operands rfl rfl [] nonempty undashed, acceptAll_mnemonics rfl [] words]
  rfl

/-! ## Whole command lines -/

/-- A command without a setting before it. -/
theorem readRequest_command {name : String} (known : name ∈ topLevel.commands)
    (words : List String) :
    readRequest (name :: words) = (readCommand name words).map (Request.mk .auto) := by
  have command : topLevel.isCommand (.start .auto) name = true := by
    simpa [Level.isCommand, Progress.start, Progress.awaitsValue] using known
  rw [readRequest, Level.walk, if_pos command]
  simp only [readRest, Progress.start, Progress.settle]
  cases readCommand name words <;> rfl

/-- How far the reading has come when colours are being chosen. -/
def choosing (given : Option String) : Progress Coloring where
  settings := .auto
  pending :=
    .value "--color <COLOR>" (fun keyword _ => (Coloring.read keyword).toOption) given

theorem walk_choosing {keyword : String} (undashed : Undashed keyword) {name : String}
    (known : name ∈ topLevel.commands) (words : List String) :
    topLevel.walk (.start .auto) ("--color" :: keyword :: name :: words) =
      .ok (choosing (some keyword), some (name, words)) := by
  have opened : topLevel.take (.start .auto) "--color" = .ok (choosing none) := rfl
  have valued : topLevel.take (choosing none) keyword = .ok (choosing (some keyword)) := by
    rw [take_undashed rfl undashed]
    rfl
  have command : topLevel.isCommand (choosing (some keyword)) name = true := by
    simpa [Level.isCommand, choosing, Progress.awaitsValue] using known
  rw [Level.walk, if_neg (by decide), opened]
  dsimp only
  rw [Level.walk, if_neg (by simp [Level.isCommand, choosing, Progress.awaitsValue]), valued]
  dsimp only
  rw [Level.walk, if_pos command]

theorem settle_choosing {keyword : String} {coloring : Coloring} (given : keyword ≠ "")
    (chosen : Coloring.read keyword = .ok coloring) :
    ((choosing (some keyword)).settle).map Progress.settings = .ok coloring := by
  have nonempty : keyword.isEmpty = false := by simp [given]
  simp [choosing, Progress.settle, Progress.assign, Progress.use, nonempty, chosen,
    Except.toOption, Except.map]

/-- A command behind a choice of colours. -/
theorem readRequest_colored {keyword : String} {coloring : Coloring}
    (chosen : (keyword, coloring) ∈ Coloring.choices) {name : String}
    (known : name ∈ topLevel.commands) (words : List String) :
    readRequest ("--color" :: keyword :: name :: words) =
      (readCommand name words).map (Request.mk coloring) := by
  have all : ∀ choice ∈ Coloring.choices,
      Undashed choice.1 ∧ choice.1 ≠ "" ∧ Coloring.read choice.1 = .ok choice.2 := by
    decide
  obtain ⟨undashed, given, accepted⟩ := all _ chosen
  have settled := settle_choosing given accepted
  rw [readRequest, walk_choosing undashed known]
  simp only [readRest]
  cases readCommand name words with
  | error stop => rfl
  | ok command =>
      cases outcome : (choosing (some keyword)).settle with
      | error stop =>
          rw [outcome] at settled
          cases settled
      | ok later =>
          rw [outcome] at settled
          have same : later.settings = coloring := Except.ok.inj settled
          rw [← same]
          rfl

end Opcodes.Proofs.Requests
