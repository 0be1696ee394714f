import Opcodes.Document
import Opcodes.Proofs.Lexemes

/-!
# Escape sequences in written text

The escape sequences by which a terminal is told of styles, found again in the
text that it is sent: an escape character, a bracket, digits and an `m`. What a
document looks like without them is its plain text, and behind each of its
spans the last of them is the one that turns all attributes off.
-/

namespace Opcodes.Proofs.EscapeSequences

open Lexemes

/-! ## Reading -/

/-- What a terminal is sent: a character to show, or a sequence with its parameter. -/
inductive Piece where
  | character (shown : Char)
  | sequence (parameter : List Char)
deriving DecidableEq, Repr

namespace Piece

def shown? : Piece → Option Char
  | character shown => some shown
  | sequence _ => none

def parameter? : Piece → Option (List Char)
  | character _ => none
  | sequence parameter => some parameter

end Piece

/-- How much of a sequence has been read. -/
inductive Stage where
  | outside
  | escape
  | parameter (digits : List Char)
deriving DecidableEq, Repr

namespace Stage

/-- The characters of a sequence that has begun. -/
def begun : Stage → List Char
  | outside => []
  | escape => ['\x1b']
  | parameter digits => '\x1b' :: '[' :: digits

/-- Reads a character that does not continue what has begun, which so is no sequence. -/
def abandon (stage : Stage) (next : Char) : List Piece × Stage :=
  if next = '\x1b' then
    (stage.begun.map .character, .escape)
  else
    ((stage.begun ++ [next]).map .character, .outside)

def step (stage : Stage) (next : Char) : List Piece × Stage :=
  match stage with
  | outside => stage.abandon next
  | escape => if next = '[' then ([], .parameter []) else stage.abandon next
  | parameter digits =>
      if next.isDigit then
        ([], .parameter (digits ++ [next]))
      else if next = 'm' ∧ digits ≠ [] then
        ([.sequence digits], .outside)
      else
        stage.abandon next

end Stage

/-- A text cut into characters and sequences. -/
def pieces (text : List Char) : List Piece :=
  (run Stage.step .outside text).1 ++ (run Stage.step .outside text).2.begun.map .character

/-- The text with every sequence deleted. -/
def withoutSequences (text : String) : String :=
  String.ofList ((pieces text.toList).filterMap Piece.shown?)

theorem pieces_of_run {text : List Char} {found : List Piece}
    (reached : run Stage.step .outside text = (found, .outside)) : pieces text = found := by
  rw [pieces, reached]
  exact List.append_nil found

theorem run_text {text : List Char} (free : '\x1b' ∉ text) :
    run Stage.step .outside text = (text.map .character, .outside) := by
  have stays : ∀ next ∈ text, Stage.outside.step next = ([.character next], .outside) := by
    intro next member
    have other : next ≠ '\x1b' := fun same => free (same ▸ member)
    simp [Stage.step, Stage.abandon, Stage.begun, other]
  rw [run_of_forall stays, List.map_eq_flatMap]

theorem shown_characters (text : List Char) :
    (text.map Piece.character).filterMap Piece.shown? = text := by
  simp [List.filterMap_map, Function.comp_def, Piece.shown?]

theorem run_digits {digits : List Char} (all : ∀ digit ∈ digits, digit.isDigit = true)
    (seen : List Char) :
    run Stage.step (.parameter seen) digits = ([], .parameter (seen ++ digits)) := by
  induction digits generalizing seen with
  | nil => simp [run]
  | cons digit rest ih =>
      have first := all digit List.mem_cons_self
      have later := ih (fun other member => all other (List.mem_cons_of_mem _ member))
        (seen ++ [digit])
      simp [run, Stage.step, first, later]

theorem run_escape {parameter : String} (nonempty : parameter.toList ≠ [])
    (all : ∀ digit ∈ parameter.toList, digit.isDigit = true) :
    run Stage.step .outside (escape parameter).toList =
      ([.sequence parameter.toList], .outside) := by
  have opened : run Stage.step .outside "\x1b[".toList = ([], .parameter []) := by
    decide
  have ended : run Stage.step (.parameter parameter.toList) "m".toList =
      ([.sequence parameter.toList], .outside) := by
    have letter : ('m' : Char).isDigit = false := by decide
    simp [run, Stage.step, letter, nonempty]
  rw [escape, String.toList_append, String.toList_append, List.append_assoc]
  exact run_append_of_eq opened (run_append_of_eq (run_digits all []) ended)

/-! ## Where attributes are on -/

/-- The last sequence, if there is one, turns all attributes off. -/
def Off (found : List Piece) : Prop :=
  ∀ parameter ∈ (found.filterMap Piece.parameter?).getLast?, parameter = ['0']

/-- No attribute is on at a line end or at the end. -/
structure NeverLeaks (found : List Piece) : Prop where
  atEnd : Off found
  atLineEnd : ∀ before after, found = before ++ .character '\n' :: after → Off before

theorem parameters_characters (text : List Char) :
    (text.map Piece.character).filterMap Piece.parameter? = [] := by
  rw [List.filterMap_eq_nil_iff]
  simp [Piece.parameter?]

theorem off_characters (text : List Char) : Off (text.map .character) := by
  rw [Off, parameters_characters]
  simp

theorem Off.append {first second : List Piece} (one : Off first) (other : Off second) :
    Off (first ++ second) := by
  intro parameter last
  rw [List.filterMap_append, List.getLast?_append] at last
  rcases Option.or_eq_some_iff.mp last with behind | ⟨_, before⟩
  · exact other parameter behind
  · exact one parameter before

theorem neverLeaks_nil : NeverLeaks [] where
  atEnd := off_characters []
  atLineEnd before after split := by simp at split

theorem neverLeaks_characters (text : List Char) : NeverLeaks (text.map .character) where
  atEnd := off_characters text
  atLineEnd before after split := by
    obtain ⟨shown, _, _, rfl, _⟩ := List.map_eq_append_iff.mp split
    exact off_characters shown

theorem NeverLeaks.append {first second : List Piece} (one : NeverLeaks first)
    (other : NeverLeaks second) : NeverLeaks (first ++ second) where
  atEnd := one.atEnd.append other.atEnd
  atLineEnd before after split := by
    rcases List.append_eq_append_iff.mp split with ⟨inner, rfl, later⟩ | ⟨inner, earlier, later⟩
    · exact one.atEnd.append (other.atLineEnd inner after later)
    · cases inner with
      | nil =>
          rw [List.append_nil] at earlier
          exact earlier ▸ one.atEnd
      | cons ended rest =>
          obtain ⟨rfl, _⟩ := List.cons.inj later
          exact one.atLineEnd before rest earlier

theorem neverLeaks_flatMap {Item : Type} {items : List Item} {found : Item → List Piece}
    (each : ∀ item ∈ items, NeverLeaks (found item)) : NeverLeaks (items.flatMap found) := by
  induction items with
  | nil => exact neverLeaks_nil
  | cons item rest ih =>
      rw [List.flatMap_cons]
      exact (each item List.mem_cons_self).append
        (ih fun other member => each other (List.mem_cons_of_mem _ member))

/-! ## Documents -/

/-- What a terminal is sent of a span. -/
def spanPieces (span : Span) : List Piece :=
  match span.style with
  | none => span.text.toList.map .character
  | some style =>
      style.parameters.map (fun parameter => .sequence parameter.toList) ++
        (span.text.toList.map .character ++ [.sequence ['0']])

/-- A style turns all attributes off, and then on those that it wants. -/
theorem of_mem_parameters {style : Style} {parameter : String}
    (member : parameter ∈ style.parameters) :
    parameter = "0" ∨ parameter = "1" ∨ ∃ color : Color, parameter = color.parameter := by
  simp only [Style.parameters, List.mem_cons, List.mem_append, List.mem_map] at member
  rcases member with off | bold | ⟨color, _, rfl⟩
  · exact .inl off
  · obtain ⟨_, bold⟩ : style.bold = true ∧ parameter = "1" := by simpa using bold
    exact .inr (.inl bold)
  · exact .inr (.inr ⟨color, rfl⟩)

theorem digits_of_mem_parameters {style : Style} {parameter : String}
    (member : parameter ∈ style.parameters) :
    parameter.toList ≠ [] ∧ parameter.toList.all Char.isDigit = true := by
  rcases of_mem_parameters member with rfl | rfl | ⟨color, rfl⟩
  · decide
  · decide
  · cases color <;> decide

theorem run_opening (style : Style) :
    run Stage.step .outside style.opening.toList =
      (style.parameters.map (fun parameter => .sequence parameter.toList), .outside) := by
  have each : ∀ parameter ∈ style.parameters,
      run Stage.step .outside (escape parameter).toList =
        ([.sequence parameter.toList], .outside) := by
    intro parameter member
    obtain ⟨nonempty, digits⟩ := digits_of_mem_parameters member
    exact run_escape nonempty (List.all_eq_true.mp digits)
  rw [Style.opening, String.toList_join, List.flatMap_map, List.map_eq_flatMap]
  exact run_flatMap each

theorem run_span {span : Span} (free : '\x1b' ∉ span.text.toList) :
    run Stage.step .outside (span.render .terminal).toList = (spanPieces span, .outside) := by
  obtain ⟨text, _ | style⟩ := span
  · exact run_text free
  · have closed : run Stage.step .outside Style.closing.toList =
        ([.sequence ['0']], .outside) := by
      decide
    simp only [Span.render, spanPieces, String.toList_append, List.append_assoc]
    exact run_append_of_eq (run_opening style) (run_append_of_eq (run_text free) closed)

/-- A span holds no escape character, and if it has a style, it lies within a line. -/
structure Clean (span : Span) : Prop where
  free : '\x1b' ∉ span.text.toList
  oneLine : span.style.isSome = true → '\n' ∉ span.text.toList

theorem Clean.neverLeaks {span : Span} (clean : Clean span) : NeverLeaks (spanPieces span) := by
  have oneLine := clean.oneLine
  obtain ⟨text, _ | style⟩ := span
  · exact neverLeaks_characters text.toList
  · constructor
    · intro parameter last
      simpa [spanPieces, List.getLast?_append, Piece.parameter?, eq_comm] using last
    · intro before after split
      have ended : Piece.character '\n' ∈ spanPieces ⟨text, some style⟩ := by
        rw [split]
        exact List.mem_append_right _ List.mem_cons_self
      simp [spanPieces, oneLine rfl] at ended

theorem toList_render (medium : Medium) (document : Document) :
    (document.render medium).toList =
      document.spans.flatMap fun span => (span.render medium).toList := by
  rw [Document.render, String.toList_join, List.flatMap_map]

/-- A terminal is sent the pieces of the spans, one span after the other. -/
theorem pieces_render {document : Document}
    (free : ∀ span ∈ document.spans, '\x1b' ∉ span.text.toList) :
    pieces (document.render .terminal).toList = document.spans.flatMap spanPieces := by
  rw [toList_render]
  exact pieces_of_run (run_flatMap fun span member => run_span (free span member))

theorem shown_spanPieces (span : Span) :
    (spanPieces span).filterMap Piece.shown? = (span.render .plain).toList := by
  obtain ⟨text, _ | style⟩ := span
  · exact shown_characters text.toList
  · have hidden : (style.parameters.map fun parameter =>
        Piece.sequence parameter.toList).filterMap Piece.shown? = [] := by
      rw [List.filterMap_eq_nil_iff]
      simp [Piece.shown?]
    simp only [spanPieces, List.filterMap_append, hidden, shown_characters, List.nil_append]
    exact List.append_nil text.toList

/-- Without its sequences, what a terminal is sent is the plain text. -/
theorem withoutSequences_render {document : Document}
    (free : ∀ span ∈ document.spans, '\x1b' ∉ span.text.toList) :
    withoutSequences (document.render .terminal) = document.render .plain := by
  rw [withoutSequences, pieces_render free, List.filterMap_flatMap, ← String.toList_inj,
    String.toList_ofList, toList_render]
  simp only [shown_spanPieces]

theorem neverLeaks_render {document : Document} (clean : ∀ span ∈ document.spans, Clean span) :
    NeverLeaks (pieces (document.render .terminal).toList) := by
  rw [pieces_render fun span member => (clean span member).free]
  exact neverLeaks_flatMap fun span member => (clean span member).neverLeaks

end Opcodes.Proofs.EscapeSequences
