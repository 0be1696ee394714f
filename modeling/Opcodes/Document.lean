import Opcodes.Failure
import Opcodes.Sink
import Opcodes.Style

/-!
# Documents

A document is a list of spans of text, some of them styled. A terminal takes a
styled span between escape sequences, a plain medium takes only its text.
Writing a document to a sink stops at the first span that does not fit.
-/

namespace Opcodes

/-- A piece of text, styled or not. -/
structure Span where
  text : String
  style : Option Style := none
deriving DecidableEq, Repr

/-- Whether styles are written. -/
inductive Medium where
  | plain
  | terminal
deriving DecidableEq, Repr

namespace Span

def lineEnd : Span :=
  ⟨"\n", none⟩

def render (medium : Medium) (span : Span) : String :=
  match medium, span.style with
  | .terminal, some style => style.opening ++ span.text ++ Style.closing
  | _, _ => span.text

def bytes (medium : Medium) (span : Span) : List UInt8 :=
  (span.render medium).toUTF8.data.toList

end Span

/-- Why writing a document did not succeed: the sink is full, maybe behind a formatter that does
not pass the cause on, or some of the mnemonics asked for are not in the table. -/
inductive WriteError where
  | full
  | formatting
  | unknownMnemonics (missing total : Nat)
deriving DecidableEq, Repr

/-- The failure that is reported for the error. -/
def WriteError.failure : WriteError → Failure
  | full => ⟨"writer is full", none⟩
  | formatting => ⟨"an error occurred when formatting an argument", none⟩
  | unknownMnemonics missing total =>
      ⟨toString missing ++ " of " ++ toString total ++ " mnemonics not found", none⟩

/-- Text to be written, with a complaint that is made even if everything fits, and with the error
that is reported if something does not. -/
structure Document where
  spans : List Span
  complaint : Option WriteError := none
  overflow : WriteError := .full
deriving DecidableEq, Repr

namespace Document

def render (medium : Medium) (document : Document) : String :=
  String.join (document.spans.map (Span.render medium))

/-- Writes spans in turn, up to the first that does not fit, and tells whether all did. -/
def writeSpans (medium : Medium) : Sink → List Span → Sink × Bool
  | sink, [] => (sink, true)
  | sink, span :: rest =>
      let written := sink.write (span.bytes medium)
      if written.2 then writeSpans medium written.1 rest else (written.1, false)

/-- Writes a document to a sink and tells what went wrong, if anything. -/
def write (medium : Medium) (document : Document) (sink : Sink) : Sink × Option WriteError :=
  let written := writeSpans medium sink document.spans
  (written.1, if written.2 then document.complaint else some document.overflow)

end Document

end Opcodes
