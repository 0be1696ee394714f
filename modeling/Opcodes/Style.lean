/-!
# Styles on a terminal

A style is a foreground colour and boldness. A terminal is told of it by escape
sequences in front of a text, and of its end by one behind it.
-/

namespace Opcodes

inductive Color where
  | red
  | green
  | yellow
  | magenta
  | cyan
deriving DecidableEq, Repr

namespace Color

/-- The parameter by which an escape sequence selects the colour. -/
def parameter : Color → String
  | red => "31"
  | green => "32"
  | yellow => "33"
  | magenta => "35"
  | cyan => "36"

end Color

structure Style where
  bold : Bool := false
  color : Option Color := none
deriving DecidableEq, Repr

/-- The escape sequence that selects one graphic attribute. -/
def escape (parameter : String) : String :=
  "\x1b[" ++ parameter ++ "m"

namespace Style

/-- The parameters of the escape sequences before a span: all attributes off, then those wanted. -/
def parameters (style : Style) : List String :=
  "0" :: ((if style.bold then ["1"] else []) ++ style.color.toList.map Color.parameter)

/-- What a terminal is sent before a span. -/
def opening (style : Style) : String :=
  String.join (style.parameters.map escape)

def closing : String :=
  escape "0"

end Style

end Opcodes
