import Opcodes.Failure

/-!
# Choices named by a keyword

The two settings that a command line takes as one of a few words: when output
is coloured, and which declarations are emitted. Case matters.
-/

namespace Opcodes

/-- A word that names none of the choices of a setting. -/
structure UnknownKeyword where
  setting : String
  keyword : String
deriving DecidableEq, Repr

def UnknownKeyword.failure (unknown : UnknownKeyword) : Failure :=
  ⟨"invalid " ++ unknown.setting ++ " " ++ unknown.keyword, none⟩

/-- When output is coloured. Left to itself, it is on a terminal only. -/
inductive Coloring where
  | auto
  | always
  | never
deriving DecidableEq, Repr

namespace Coloring

def choices : List (String × Coloring) :=
  [("auto", auto), ("always", always), ("never", never)]

def keywords : List String :=
  choices.map fun choice => choice.1

def read (keyword : String) : Except UnknownKeyword Coloring :=
  match choices.lookup keyword with
  | none => .error ⟨"color choice", keyword⟩
  | some choice => .ok choice

end Coloring

/-- Which declarations are emitted for a table: an array of names with one element per byte, or a
constant per mnemonic. -/
inductive Emission where
  | names
  | consts
deriving DecidableEq, Repr

namespace Emission

def choices : List (String × Emission) :=
  [("names", names), ("consts", consts)]

def keywords : List String :=
  choices.map fun choice => choice.1

def label : Emission → String
  | names => "Names"
  | consts => "Consts"

def read (keyword : String) : Except UnknownKeyword Emission :=
  match choices.lookup keyword with
  | none => .error ⟨"emit kind", keyword⟩
  | some choice => .ok choice

end Emission

end Opcodes
