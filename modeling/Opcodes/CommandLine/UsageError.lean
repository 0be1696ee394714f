import Opcodes.Document
import Opcodes.Text.Control

/-!
# Refused command lines

Why a command line is refused, and what its user is told. The account is
written for a terminal, with the user's own words in a style of their own; where
there is no terminal, its visible part is told. A sequence that the user's words
leave open so ends with the style, but one in a reason lasts up to the hint.
-/

namespace Opcodes.CommandLine

/-- What is wrong with a command line. A value is also missing if it is empty, and a program without
any arguments says what it is about. -/
inductive UsageError where
  | unrecognizedCommand (word : String)
  | unexpectedArgument (word : String)
  | unexpectedValue (value label : String)
  | missingOperands (label : String)
  | missingValue (label : String)
  | invalidValue (value label : String) (reason : Option String)
  | repeated (label : String)
  | missingCommand (program : String)
  | noArguments (about : String)
deriving DecidableEq, Repr

namespace UsageError

/-- The look of the word that introduces an error. -/
def alarm : Style :=
  ⟨true, some .red⟩

/-- The look of a word of the user. -/
def given : Style :=
  ⟨false, some .yellow⟩

/-- The look of a name that the program gives. -/
def named : Style :=
  ⟨true, none⟩

def plain (text : String) : Span :=
  ⟨text, none⟩

/-- A word in quotes, which stand outside its style. -/
def quoted (style : Style) (word : String) : List Span :=
  [plain "'", ⟨word, some style⟩, plain "'"]

def because : Option String → List Span
  | none => []
  | some reason => [plain (": " ++ reason)]

def sentence : UsageError → List Span
  | unrecognizedCommand word => plain "unrecognized subcommand " :: quoted given word
  | unexpectedArgument word =>
      plain "unexpected argument " :: quoted given word ++ [plain " found"]
  | unexpectedValue value label =>
      plain "unexpected value " :: quoted given value ++ plain " for " :: quoted named label ++
        [plain " found; no more were expected"]
  | missingOperands label =>
      [plain "the following required arguments were not provided:\n  ", ⟨label, some named⟩]
  | missingValue label =>
      plain "a value is required for " :: quoted named label ++ [plain " but none was supplied"]
  | invalidValue value label reason =>
      plain "invalid value " :: quoted given value ++ plain " for " :: quoted named label ++
        because reason
  | repeated label =>
      plain "the argument " :: quoted named label ++ [plain " cannot be used multiple times"]
  | missingCommand program =>
      quoted given program ++ [plain " requires a subcommand but one was not provided"]
  | noArguments about => [plain about]

/-- Where more can be learnt. -/
def hint : List Span :=
  plain "\n\nFor more information, try " :: quoted named "--help" ++ [plain ".\n"]

/-- What a terminal is told of an error: what is wrong and where more can be learnt. The lines on
the usage, on what might have been meant and on the possible values are left out. -/
def spans (error : UsageError) : List Span :=
  match error with
  | noArguments about => [plain about, .lineEnd]
  | _ => ⟨"error:", some alarm⟩ :: plain " " :: error.sentence ++ hint

/-- What is told of an error where there is no terminal. -/
def message (error : UsageError) : String :=
  Text.Control.visible (String.join (error.spans.map (Span.render .terminal)))

end UsageError

/-- Why reading a command line ends early: it is refused, or it asks for a text about the
program. -/
inductive Stop where
  | refused (error : UsageError)
  | informed (text : String)
deriving DecidableEq, Repr

end Opcodes.CommandLine
