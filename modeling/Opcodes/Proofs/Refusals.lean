import Opcodes.Proofs.EscapeSequences
import Opcodes.Run

/-!
# What is told of a refused operand

An account of an error is shown without its terminal control. Each of its
styles begins with a sequence that ends whatever is being read, so what a
user's word hides lasts up to the end of the word, and what a reason hides
lasts up to the hint. A word without control characters hides nothing.
-/

namespace Opcodes.Proofs.Refusals

open CommandLine EscapeSequences Text.Control

/-! ## Styles -/

/-- A text that is not shown and ends whatever is being read. -/
def Resets (text : List Char) : Prop :=
  ∀ state, visibleFrom state text = [] ∧ text.foldl State.next state = .start

theorem Resets.append {first second : List Char} (one : Resets first) (other : Resets second) :
    Resets (first ++ second) := by
  intro state
  obtain ⟨hidden, ended⟩ := one state
  rw [visibleFrom_append, hidden, List.foldl_append, ended]
  exact other .start

theorem hides_escape (state : State) : state.shows '\x1b' = false := by
  have control : isPlain '\x1b' = false := by decide
  rw [State.shows, control, Bool.false_and]

theorem resets_of_escape {rest : List Char} (hidden : visibleFrom ⟨.escape, false⟩ rest = [])
    (ended : rest.foldl State.next ⟨.escape, false⟩ = .start) : Resets ('\x1b' :: rest) := by
  intro state
  have next : state.next '\x1b' = ⟨.escape, false⟩ := by
    rw [State.next, hides_escape]
    rfl
  rw [visibleFrom, hides_escape, List.foldl_cons, next]
  exact ⟨hidden, ended⟩

theorem resets_parameter {style : Style} {parameter : String}
    (member : parameter ∈ style.parameters) : Resets (escape parameter).toList := by
  rcases of_mem_parameters member with rfl | rfl | ⟨color, rfl⟩
  · exact resets_of_escape (by decide) (by decide)
  · exact resets_of_escape (by decide) (by decide)
  · cases color <;> exact resets_of_escape (by decide) (by decide)

theorem resets_closing : Resets Style.closing.toList :=
  resets_of_escape (by decide) (by decide)

theorem resets_escapes {first : String} {others : List String}
    (each : ∀ parameter ∈ first :: others, Resets (escape parameter).toList) :
    Resets ((first :: others).flatMap fun parameter => (escape parameter).toList) := by
  induction others generalizing first with
  | nil => simpa using each
  | cons next rest ih =>
      rw [List.flatMap_cons]
      exact (each first List.mem_cons_self).append
        (ih fun parameter member => each parameter (List.mem_cons_of_mem _ member))

theorem resets_opening (style : Style) : Resets style.opening.toList := by
  rw [Style.opening, String.toList_join, List.flatMap_map]
  exact resets_escapes fun parameter member => resets_parameter member

/-! ## Spans -/

theorem foldl_next_start {text : List Char} (plain : text.all isPlain = true) :
    text.foldl State.next .start = .start := by
  induction text with
  | nil => rfl
  | cons character rest ih =>
      rw [List.all_cons, Bool.and_eq_true] at plain
      rw [List.foldl_cons, next_start plain.1, ih plain.2]

/-- A text without control characters, apart from those that end a line or leave a gap. -/
def Plain (text : String) : Prop :=
  text.toList.all isPlain = true

instance {text : String} : Decidable (Plain text) :=
  inferInstanceAs (Decidable (text.toList.all isPlain = true))

namespace Plain

variable {text other : String}

theorem append (one : Plain text) (another : Plain other) : Plain (text ++ other) := by
  unfold Plain at *
  rw [String.toList_append, List.all_append, one, another, Bool.and_self]

theorem visible (plain : Plain text) : visible text = text := by
  rw [Text.Control.visible, visibleFrom_start plain, String.ofList_toList]

theorem visible_append (plain : Plain text) (rest : String) :
    Text.Control.visible (text ++ rest) = text ++ Text.Control.visible rest := by
  rw [← String.toList_inj, Text.Control.visible, Text.Control.visible, String.toList_ofList,
    String.toList_append, String.toList_append, String.toList_ofList, visibleFrom_append,
    visibleFrom_start plain, foldl_next_start plain]

end Plain

/-- Whatever is being read in front of a styled span, its text is shown by itself. -/
theorem visible_append_styled (text styled : String) (style : Style) (rest : String) :
    visible (text ++ (Span.render .terminal ⟨styled, some style⟩ ++ rest)) =
      visible text ++ (visible styled ++ visible rest) := by
  obtain ⟨hidden, opened⟩ := resets_opening style (text.toList.foldl State.next .start)
  obtain ⟨closed, ended⟩ := resets_closing (styled.toList.foldl State.next .start)
  rw [← String.toList_inj]
  simp only [visible, Span.render, String.toList_append, String.toList_ofList,
    List.append_assoc, visibleFrom_append, hidden, opened, closed, ended, List.nil_append]

/-- A styled span is shown by itself, and so is a plain text without control characters. -/
theorem visible_spans {spans : List Span}
    (plain : ∀ span ∈ spans, span.style = none → Plain span.text)
    (rest : String) :
    visible (String.join (spans.map (Span.render .terminal)) ++ rest) =
      String.join (spans.map fun span => visible span.text) ++ visible rest := by
  induction spans with
  | nil => rw [List.map_nil, List.map_nil, String.join_nil, String.empty_append,
      String.empty_append]
  | cons span others ih =>
      have later := ih fun other member => plain other (List.mem_cons_of_mem _ member)
      have first := plain span List.mem_cons_self
      rw [List.map_cons, List.map_cons, String.join_cons, String.join_cons, String.append_assoc,
        String.append_assoc, ← later]
      obtain ⟨text, _ | style⟩ := span
      · rw [(first rfl).visible]
        exact (first rfl).visible_append _
      · have empty : visible "" = "" := Plain.visible (by decide)
        have shown := visible_append_styled "" text style
          (String.join (others.map (Span.render .terminal)) ++ rest)
        rwa [String.empty_append, empty, String.empty_append] at shown

/-! ## Refused operands -/

/-- What is told of a refused operand, up to the end of the line. -/
def told (value label reason : String) : String :=
  "error: invalid value '" ++ value ++ "' for '" ++ label ++ "': " ++ reason

/-- What stands behind the reason for a refusal, up to a switch in a style of its own. -/
def advice : String :=
  "\n\nFor more information, try '"

theorem told_append (value label reason rest : String) :
    told value label (reason ++ rest) = told value label reason ++ rest := by
  unfold told
  rw [← String.append_assoc]

/-- The spans in front of the reason for a refusal. -/
def introduction (value label : String) : List Span :=
  [⟨"error:", some UsageError.alarm⟩, UsageError.plain " ", UsageError.plain "invalid value ",
    UsageError.plain "'", ⟨value, some UsageError.given⟩, UsageError.plain "'",
    UsageError.plain " for ", UsageError.plain "'", ⟨label, some UsageError.named⟩,
    UsageError.plain "'"]

theorem plain_introduction (value label : String) :
    ∀ span ∈ introduction value label, span.style = none → Plain span.text := by
  simp only [introduction, UsageError.plain, List.forall_mem_cons, reduceCtorEq, false_implies,
    true_and, forall_const, List.not_mem_nil, implies_true, and_true]
  decide

theorem join_introduction (value label : String) :
    String.join ((introduction value label).map fun span => visible span.text) =
      "error: invalid value '" ++ visible value ++ "' for '" ++ visible label ++ "'" := by
  have opening : Plain "error:" := by decide
  have blank : Plain " " := by decide
  have invalid : Plain "invalid value " := by decide
  have quote : Plain "'" := by decide
  have between : Plain " for " := by decide
  simp only [introduction, UsageError.plain, List.map_cons, List.map_nil, String.join_cons,
    String.join_nil, opening.visible, blank.visible, invalid.visible, quote.visible,
    between.visible, String.append_empty, ← String.append_assoc, String.reduceAppend]

/-- What a terminal is sent of a refused operand. -/
theorem join_spans (value label reason : String) :
    String.join ((UsageError.invalidValue value label (some reason)).spans.map
        (Span.render .terminal)) =
      String.join ((introduction value label).map (Span.render .terminal)) ++
        (": " ++ (reason ++ advice ++
          (Span.render .terminal ⟨"--help", some UsageError.named⟩ ++ "'.\n"))) := by
  have spelled : (UsageError.invalidValue value label (some reason)).spans =
      introduction value label ++
        [UsageError.plain (": " ++ reason), UsageError.plain "\n\nFor more information, try ",
          UsageError.plain "'", ⟨"--help", some UsageError.named⟩, UsageError.plain "'",
          UsageError.plain ".\n"] :=
    rfl
  have unstyled (text : String) : Span.render .terminal (UsageError.plain text) = text := rfl
  have advised : advice = "\n\nFor more information, try " ++ "'" := by decide
  have ended : "'.\n" = "'" ++ ".\n" := by decide
  rw [spelled, List.map_append, String.join_append]
  simp only [List.map_cons, List.map_nil, String.join_cons, String.join_nil, unstyled, advised,
    ended, String.append_empty, String.append_assoc]

/-- What a refused operand or a reason hides is not told. -/
theorem message_invalidValue (value label reason : String) :
    (UsageError.invalidValue value label (some reason)).message =
      told (visible value) (visible label) (visible (reason ++ advice)) ++ "--help'.\n" := by
  have colon : Plain ": " := by decide
  have switch : Plain "--help" := by decide
  have rest : Plain "'.\n" := by decide
  have quoted (before : String) : before ++ "'" ++ ": " = before ++ "': " := by
    simp only [String.append_assoc, String.reduceAppend]
  unfold UsageError.message
  rw [join_spans, visible_spans (plain_introduction value label), join_introduction,
    colon.visible_append, visible_append_styled, switch.visible, rest.visible]
  unfold told
  simp only [← String.append_assoc, String.reduceAppend, quoted]

/-- Without control characters, all of it is told. -/
theorem message_of_plain {value label reason : String} (one : Plain value)
    (other : Plain label) (another : Plain reason) :
    (UsageError.invalidValue value label (some reason)).message =
      told value label reason ++ (advice ++ "--help'.\n") := by
  have advised : Plain advice := by decide
  rw [message_invalidValue, one.visible, other.visible, (another.append advised).visible,
    told_append, String.append_assoc]

/-! ## First lines -/

/-- A line that does not end in a carriage return is all that the line end behind it ends. -/
theorem firstLine_append {text : List Char} (last : text.getLast? ≠ some '\r')
    (rest : List Char) : Run.firstLine (text ++ '\n' :: rest) = Run.firstLine text := by
  fun_induction Run.firstLine text with
  | case1 => rfl
  | case2 => rfl
  | case3 => rfl
  | case4 character others unended unreturned ih =>
      cases others with
      | nil =>
          have other : character ≠ '\r' := by simpa using last
          simp [Run.firstLine, other]
      | cons next later =>
          have following := ih (by simpa using last)
          have unbroken : ∀ tail, character = '\r' →
              next :: later ++ '\n' :: rest ≠ '\n' :: tail := by
            intro tail returned broken
            obtain ⟨rfl, _⟩ := List.cons.inj broken
            exact unreturned later returned rfl
          rw [List.cons_append, Run.firstLine, following]
          · exact unended
          · exact unbroken

end Opcodes.Proofs.Refusals
