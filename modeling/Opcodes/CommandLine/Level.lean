import Opcodes.CommandLine.UsageError

/-!
# Levels of a command line

A level takes switches, operands and commands. A command ends its level and
hands the words behind it to a level of its own. Words are taken one by one; a
switch that takes a value, and likewise a run of operands, stays pending until
the next switch or the end of the level, and only then are its values accepted
or refused. So what is wrong with an earlier value is reported after what is
wrong with the shape of a later word, but before anything that a later switch
does.
-/

namespace Opcodes.CommandLine

/-- What a switch does: it changes the settings of its level, it takes a value for them, which may
be refused, or it ends the reading with a text about the program. -/
inductive Effect (Settings : Type) where
  | mark (apply : Settings → Settings)
  | assign (accept : String → Settings → Option Settings)
  | inform (text : String)

/-- An argument that starts with a dash. Errors speak of it by its label. -/
structure Switch (Settings : Type) where
  long : Option String
  short : Option Char
  label : String
  effect : Effect Settings

/-- Arguments that are taken by their place. At least one has to be given, and each is accepted by
itself or refused for a reason. -/
structure Operands (Settings : Type) where
  label : String
  accept : String → Settings → Except String Settings

/-- What one level of a command line takes. -/
structure Level (Settings : Type) where
  switches : List (Switch Settings)
  operands : Option (Operands Settings) := none
  commands : List String := []

/-- Values that have been given but not yet accepted: that of a switch, which may still be without
it, or a run of operands, the first one first. -/
inductive Pending (Settings : Type) where
  | nothing
  | value (label : String) (accept : String → Settings → Option Settings)
      (given : Option String)
  | operands (operands : Operands Settings) (given : List String)

/-- How far the reading of a level has come: the labels of what has been used, what is pending, and
whether all further words are operands. -/
structure Progress (Settings : Type) where
  settings : Settings
  used : List String := []
  pending : Pending Settings := .nothing
  escaped : Bool := false

variable {Settings : Type}

namespace Progress

def start (settings : Settings) : Progress Settings :=
  { settings }

/-- Whether a switch still waits for its value. -/
def awaitsValue (progress : Progress Settings) : Bool :=
  match progress.pending with
  | .value _ _ none => true
  | _ => false

def refuse {α : Type} (error : UsageError) : Except Stop α :=
  .error (.refused error)

/-- Notes that a switch is used, which it may be once only. -/
def use (progress : Progress Settings) (label : String) : Except Stop (Progress Settings) :=
  if progress.used.contains label then
    refuse (.repeated label)
  else
    .ok { progress with used := label :: progress.used }

def assign (progress : Progress Settings) (label : String)
    (accept : String → Settings → Option Settings) (given : String) :
    Except Stop (Progress Settings) :=
  match progress.use label with
  | .error stop => .error stop
  | .ok noted =>
      if given.isEmpty then
        refuse (.missingValue label)
      else
        match accept given progress.settings with
        | none => refuse (.invalidValue given label none)
        | some settings => .ok { noted with settings }

/-- Accepts operands in turn, up to the first that is refused. -/
def acceptAll (operands : Operands Settings) : Settings → List String → Except Stop Settings
  | settings, [] => .ok settings
  | settings, given :: rest =>
      match operands.accept given settings with
      | .error reason => refuse (.invalidValue given operands.label (some reason))
      | .ok later => acceptAll operands later rest

/-- Accepts or refuses what is pending. -/
def settle (progress : Progress Settings) : Except Stop (Progress Settings) :=
  match progress.pending with
  | .nothing => .ok progress
  | .value label _ none => refuse (.missingValue label)
  | .value label accept (some given) =>
      { progress with pending := .nothing }.assign label accept given
  | .operands operands given =>
      match acceptAll operands progress.settings given with
      | .error stop => .error stop
      | .ok settings =>
          .ok { progress with
            settings
            used := operands.label :: progress.used
            pending := .nothing }

/-- Uses a switch, once what is pending has been settled. -/
def apply (progress : Progress Settings) (switch : Switch Settings) (attached : Option String) :
    Except Stop (Progress Settings) :=
  match progress.settle with
  | .error stop => .error stop
  | .ok settled =>
      match switch.effect, attached with
      | .inform text, _ => .error (.informed text)
      | .mark change, _ =>
          match settled.use switch.label with
          | .error stop => .error stop
          | .ok noted => .ok { noted with settings := change noted.settings }
      | .assign accept, some given => settled.assign switch.label accept given
      | .assign accept, none => .ok { settled with pending := .value switch.label accept none }

end Progress

namespace Level

open Progress (refuse)

/-- Takes a word by its place. -/
def takeOperand (level : Level Settings) (progress : Progress Settings) (word : String) :
    Except Stop (Progress Settings) :=
  match level.operands with
  | some operands =>
      match progress.pending with
      | .operands _ given =>
          .ok { progress with pending := .operands operands (given ++ [word]) }
      | _ =>
          match progress.settle with
          | .error stop => .error stop
          | .ok settled => .ok { settled with pending := .operands operands [word] }
  | none =>
      if level.commands.isEmpty || (progress.escaped && level.commands.contains word) then
        refuse (.unexpectedArgument word)
      else
        refuse (.unrecognizedCommand word)

/-- Takes a word that is no switch: the value of a switch that waits for one, or an operand. -/
def takePlain (level : Level Settings) (progress : Progress Settings) (word : String) :
    Except Stop (Progress Settings) :=
  match progress.pending with
  | .value label accept none =>
      .ok { progress with pending := .value label accept (some word) }
  | _ => level.takeOperand progress word

/-- The name of a long switch, and the value behind its first equals sign. -/
def splitLong (characters : List Char) : String × Option String :=
  let name := String.ofList (characters.takeWhile (· != '='))
  match characters.dropWhile (· != '=') with
  | [] => (name, none)
  | _ :: value => (name, some (String.ofList value))

def takeLong (level : Level Settings) (progress : Progress Settings) (characters : List Char) :
    Except Stop (Progress Settings) :=
  let split := splitLong characters
  match level.switches.find? fun switch => switch.long == some split.1 with
  | none => refuse (.unexpectedArgument ("--" ++ split.1))
  | some switch =>
      match switch.effect, split.2 with
      | .mark _, some value => refuse (.unexpectedValue value switch.label)
      | .inform _, some value => refuse (.unexpectedValue value switch.label)
      | _, attached => progress.apply switch attached

/-- The value in the rest of a cluster, which an equals sign may announce. -/
def clusterValue : List Char → Option String
  | [] => none
  | '=' :: value => some (String.ofList value)
  | value => some (String.ofList value)

/-- Takes switches by their letters, up to one that takes the rest as its value. -/
def takeCluster (level : Level Settings) (progress : Progress Settings) :
    List Char → Except Stop (Progress Settings)
  | [] => .ok progress
  | letter :: rest =>
      match level.switches.find? fun switch => switch.short == some letter with
      | none => refuse (.unexpectedArgument (String.ofList ['-', letter]))
      | some switch =>
          match switch.effect with
          | .assign _ => progress.apply switch (clusterValue rest)
          | _ =>
              match progress.apply switch none with
              | .error stop => .error stop
              | .ok later => level.takeCluster later rest

def take (level : Level Settings) (progress : Progress Settings) (word : String) :
    Except Stop (Progress Settings) :=
  if progress.escaped then
    level.takeOperand progress word
  else
    match word.toList with
    | ['-', '-'] => .ok { progress with escaped := true }
    | '-' :: '-' :: characters => level.takeLong progress characters
    | '-' :: letter :: letters => level.takeCluster progress (letter :: letters)
    | _ => level.takePlain progress word

def isCommand (level : Level Settings) (progress : Progress Settings) (word : String) : Bool :=
  !progress.escaped && !progress.awaitsValue && level.commands.contains word

/-- Takes words up to a command; the command and the words behind it are left over. -/
def walk (level : Level Settings) :
    Progress Settings → List String →
      Except Stop (Progress Settings × Option (String × List String))
  | progress, [] => .ok (progress, none)
  | progress, word :: rest =>
      if level.isCommand progress word then
        .ok (progress, some (word, rest))
      else
        match level.take progress word with
        | .error stop => .error stop
        | .ok later => level.walk later rest

/-- Settles what is pending at the end of a level, and asks for operands if there are none. -/
def finish (level : Level Settings) (progress : Progress Settings) :
    Except Stop (Progress Settings) :=
  match progress.settle with
  | .error stop => .error stop
  | .ok settled =>
      match level.operands with
      | none => .ok settled
      | some operands =>
          if settled.used.contains operands.label then
            .ok settled
          else
            refuse (.missingOperands operands.label)

/-- The settings that a level without commands reads from all of its words. -/
def read (level : Level Settings) (settings : Settings) (words : List String) :
    Except Stop Settings :=
  match level.walk (.start settings) words with
  | .error stop => .error stop
  | .ok (progress, _) =>
      match level.finish progress with
      | .error stop => .error stop
      | .ok finished => .ok finished.settings

end Level

end Opcodes.CommandLine
