/-!
# Tokens of generated text

The parts of a program text that matter to a reader of its declarations: what
stands outside comments, cut into words, text literals and marks. A comment
runs from two slashes to the end of its line. Both steps are machines over the
characters, so a text is read piece by piece.
-/

namespace Opcodes.Proofs.Lexemes

/-! ## Machines over characters -/

section Machine

variable {State Output : Type} (step : State → Char → List Output × State)

/-- What a machine gives for a text, and the state behind the text. -/
def run : State → List Char → List Output × State
  | state, [] => ([], state)
  | state, character :: rest =>
      let later := run (step state character).2 rest
      ((step state character).1 ++ later.1, later.2)

theorem run_append (state : State) (first second : List Char) :
    run step state (first ++ second) =
      ((run step state first).1 ++ (run step (run step state first).2 second).1,
        (run step (run step state first).2 second).2) := by
  induction first generalizing state with
  | nil => rfl
  | cons character rest ih =>
      simp only [List.cons_append, run, ih, List.append_assoc]

variable {step}

theorem run_append_of_eq {state middle final : State} {first second : List Char}
    {given others : List Output} (one : run step state first = (given, middle))
    (other : run step middle second = (others, final)) :
    run step state (first ++ second) = (given ++ others, final) := by
  rw [run_append, one, other]

/-- A machine that stays in a state throughout a text gives what it gives for each character. -/
theorem run_of_forall {state : State} {text : List Char} {given : Char → List Output}
    (stays : ∀ character ∈ text, step state character = (given character, state)) :
    run step state text = (text.flatMap given, state) := by
  induction text with
  | nil => rfl
  | cons character rest ih =>
      have later := ih fun other member => stays other (List.mem_cons_of_mem _ member)
      rw [run, stays character List.mem_cons_self, later, List.flatMap_cons]

theorem run_flatMap {Item : Type} {state : State} {items : List Item}
    {text : Item → List Char} {given : Item → List Output}
    (each : ∀ item ∈ items, run step state (text item) = (given item, state)) :
    run step state (items.flatMap text) = (items.flatMap given, state) := by
  induction items with
  | nil => rfl
  | cons item rest ih =>
      have later := ih fun other member => each other (List.mem_cons_of_mem _ member)
      exact run_append_of_eq (each item List.mem_cons_self) later

end Machine

/-! ## Comments -/

/-- Where a character stands. Behind a slash, a comment may be about to open. -/
inductive Place where
  | code
  | slash
  | comment
deriving DecidableEq, Repr

namespace Place

/-- What is left of a character outside comments. -/
def step : Place → Char → List Char × Place
  | .code, character => if character = '/' then ([], .slash) else ([character], .code)
  | .slash, character => if character = '/' then ([], .comment) else (['/', character], .code)
  | .comment, character => if character = '\n' then (['\n'], .code) else ([], .comment)

def finish : Place → List Char
  | .slash => ['/']
  | _ => []

end Place

/-- The text without its comments. The ends of their lines stay. -/
def uncommented (text : List Char) : List Char :=
  (run Place.step .code text).1 ++ (run Place.step .code text).2.finish

theorem uncommented_of_run {text left : List Char}
    (reached : run Place.step .code text = (left, .code)) : uncommented text = left := by
  rw [uncommented, reached]
  exact List.append_nil left

theorem run_code {text : List Char} (plain : '/' ∉ text) :
    run Place.step .code text = (text, .code) := by
  have stays : ∀ character ∈ text, Place.code.step character = ([character], .code) := by
    intro character member
    have other : character ≠ '/' := fun same => plain (same ▸ member)
    simp [Place.step, other]
  rw [run_of_forall stays, List.flatMap_singleton']

theorem run_comment {text : List Char} (oneLine : '\n' ∉ text) :
    run Place.step .comment text = ([], .comment) := by
  have stays : ∀ character ∈ text, Place.comment.step character = ([], .comment) := by
    intro character member
    have other : character ≠ '\n' := fun same => oneLine (same ▸ member)
    simp [Place.step, other]
  rw [run_of_forall stays]
  simp

/-! ## Tokens -/

/-- A piece of a text that has a meaning of its own. A literal without an end is unclosed. -/
inductive Token where
  | word (text : String)
  | literal (text : String)
  | unclosed (text : String)
  | mark (character : Char)
deriving DecidableEq, Repr

/-- What is being read, with the characters of it that have been seen. -/
inductive Reading where
  | between
  | word (seen : List Char)
  | literal (seen : List Char)
deriving DecidableEq, Repr

def isWordCharacter (character : Char) : Bool :=
  character.isAlphanum || character == '_'

namespace Reading

/-- What a character does that belongs to no earlier token. -/
def afresh (character : Char) : List Token × Reading :=
  if isWordCharacter character then ([], .word [character])
  else if character = '"' then ([], .literal [])
  else if character.isWhitespace then ([], .between)
  else ([.mark character], .between)

/-- The tokens that end with a character, and what is being read behind it. -/
def step : Reading → Char → List Token × Reading
  | .between, character => afresh character
  | .word seen, character =>
      if isWordCharacter character then
        ([], .word (seen ++ [character]))
      else
        (.word (String.ofList seen) :: (afresh character).1, (afresh character).2)
  | .literal seen, character =>
      if character = '"' then
        ([.literal (String.ofList seen)], .between)
      else
        ([], .literal (seen ++ [character]))

def finish : Reading → List Token
  | .between => []
  | .word seen => [.word (String.ofList seen)]
  | .literal seen => [.unclosed (String.ofList seen)]

end Reading

def tokens (text : List Char) : List Token :=
  (run Reading.step .between text).1 ++ (run Reading.step .between text).2.finish

/-- A text is made of the given tokens and ends between two of them. -/
def Reads (text : List Char) (found : List Token) : Prop :=
  run Reading.step .between text = (found, .between)

instance {text : List Char} {found : List Token} : Decidable (Reads text found) :=
  inferInstanceAs (Decidable (_ = _))

theorem Reads.append {first second : List Char} {found others : List Token}
    (one : Reads first found) (other : Reads second others) :
    Reads (first ++ second) (found ++ others) :=
  run_append_of_eq one other

theorem Reads.tokens {text : List Char} {found : List Token} (reads : Reads text found) :
    tokens text = found := by
  unfold Reads at reads
  simp [Lexemes.tokens, reads, Reading.finish]

theorem run_word {word : List Char}
    (spelled : ∀ character ∈ word, isWordCharacter character = true) (seen : List Char) :
    run Reading.step (.word seen) word = ([], .word (seen ++ word)) := by
  induction word generalizing seen with
  | nil => simp [run]
  | cons character rest ih =>
      have first := spelled character List.mem_cons_self
      have later := ih (fun other member => spelled other (List.mem_cons_of_mem _ member))
        (seen ++ [character])
      simp [run, Reading.step, first, later]

theorem run_word_of_other {next : Char} (other : isWordCharacter next = false)
    (seen rest : List Char) :
    run Reading.step (.word seen) (next :: rest) =
      (.word (String.ofList seen) :: (run Reading.step .between (next :: rest)).1,
        (run Reading.step .between (next :: rest)).2) := by
  simp [run, Reading.step, other]

/-- A word is a token of its own where another character follows it. -/
theorem Reads.word {word : String} {text : List Char} {found : List Token}
    (reads : Reads text found) (nonempty : word.toList ≠ [])
    (spelled : ∀ character ∈ word.toList, isWordCharacter character = true)
    (ends : text.head?.map isWordCharacter = some false) :
    Reads (word.toList ++ text) (.word word :: found) := by
  have behind : run Reading.step (.word word.toList) text = (.word word :: found, .between) := by
    cases text with
    | nil => cases ends
    | cons next others =>
        have other : isWordCharacter next = false := by simpa using ends
        have later : run Reading.step .between (next :: others) = (found, .between) := reads
        rw [run_word_of_other other, later, String.ofList_toList]
  have all : run Reading.step .between word.toList = ([], .word word.toList) := by
    cases shape : word.toList with
    | nil => exact absurd shape nonempty
    | cons first rest =>
        rw [shape] at spelled
        have opened : Reading.between.step first = ([], .word [first]) := by
          simp [Reading.step, Reading.afresh, spelled first List.mem_cons_self]
        have inner := run_word
          (fun character member => spelled character (List.mem_cons_of_mem _ member)) [first]
        rw [run, opened, inner]
        rfl
  exact run_append_of_eq all behind

theorem run_literal {content : List Char} (unquoted : '"' ∉ content) (seen : List Char) :
    run Reading.step (.literal seen) content = ([], .literal (seen ++ content)) := by
  induction content generalizing seen with
  | nil => simp [run]
  | cons character rest ih =>
      have first : character ≠ '"' := fun same => unquoted (same ▸ List.mem_cons_self)
      have later := ih (fun member => unquoted (List.mem_cons_of_mem _ member))
        (seen ++ [character])
      simp [run, Reading.step, first, later]

theorem Reads.literal {content : String} {before after : List Char} {found others : List Token}
    (opened : run Reading.step .between before = (found, .literal []))
    (unquoted : '"' ∉ content.toList) (closed : after.head? = some '"')
    (reads : Reads after.tail others) :
    Reads (before ++ (content.toList ++ after)) (found ++ .literal content :: others) := by
  cases after with
  | nil => cases closed
  | cons quote rest =>
      cases (Option.some.inj closed : quote = '"')
      have inner := run_literal unquoted []
      have behind : run Reading.step (.literal content.toList) ('"' :: rest) =
          (.literal content :: others, .between) := by
        have later : run Reading.step .between rest = (others, .between) := reads
        simp [run, Reading.step, later]
      exact run_append_of_eq opened (run_append_of_eq inner behind)

end Opcodes.Proofs.Lexemes
