/-!
# Text without terminal control

A terminal reads control characters and escape sequences as commands; what is
left of a text without them is visible. A blank or a line end inside an escape
sequence is visible too and suspends the sequence: what follows is shown as
text, until a control character takes the sequence up again. A character
outside ASCII that is shown ends a suspended sequence.
-/

namespace Opcodes.Text.Control

/-- What a terminal is in the middle of reading: plain text, an escape sequence before or behind
its first intermediate character, a control sequence, the parts of a device control string, the
body of a string that lasts up to its terminator, or an operating system command, which lasts up to
a bell. -/
inductive Reading where
  | ground
  | escape
  | intermediate
  | sequence
  | deviceEntry
  | deviceParameter
  | deviceIntermediate
  | body
  | command
deriving DecidableEq, Repr

/-- The control characters that end a line or leave a gap. -/
def isGap (character : Char) : Bool :=
  character == '\t' || character == '\n' || character == '\x0c' || character == '\r'

/-- Whether a character commands the terminal by itself. -/
def isControl (character : Char) : Bool :=
  character.toNat < 0x20 || character.toNat == 0x7f

/-- Whether a character is visible wherever it stands in text. -/
def isPlain (character : Char) : Bool :=
  isGap character || !isControl character

/-- The characters that break off whatever is being read. -/
def isCancel (character : Char) : Bool :=
  character == '\x18' || character == '\x1a'

def within (first last : Char) (character : Char) : Bool :=
  first ≤ character && character ≤ last

/-- Whether the string terminator is among the bytes that encode a character. -/
def holdsTerminator (character : Char) : Bool :=
  (String.utf8EncodeChar character).contains 0x9c

/-- What is read behind a character that follows an escape character. -/
def afterEscape (character : Char) : Reading :=
  if character == '[' then .sequence
  else if character == ']' then .command
  else if character == 'P' then .deviceEntry
  else if character == 'X' || character == '^' || character == '_' then .body
  else if within ' ' '/' character then .intermediate
  else if within '0' '~' character then .ground
  else .escape

namespace Reading

/-- What is read behind a character that is not shown. -/
def advance (reading : Reading) (character : Char) : Reading :=
  if character == '\x1b' then
    .escape
  else if isCancel character then
    .ground
  else
    match reading with
    | .ground => .ground
    | .escape => afterEscape character
    | .intermediate => if within '0' '~' character then .ground else .intermediate
    | .sequence => if within '@' '~' character then .ground else .sequence
    | .deviceEntry =>
        if within ' ' '/' character then .deviceIntermediate
        else if within '0' '?' character then .deviceParameter
        else if within '@' '~' character then .body
        else .deviceEntry
    | .deviceParameter =>
        if within ' ' '/' character then .deviceIntermediate
        else if within '<' '~' character then .body
        else .deviceParameter
    | .deviceIntermediate => if within '0' '~' character then .body else .deviceIntermediate
    | .body => if holdsTerminator character then .ground else .body
    | .command => if character == '\x07' then .ground else .command

/-- Whether a gap suspends what is being read. -/
def canSuspend : Reading → Bool
  | .escape | .intermediate | .sequence => true
  | _ => false

end Reading

/-- What is being read, and whether it is suspended. -/
structure State where
  reading : Reading
  suspended : Bool
deriving DecidableEq, Repr

namespace State

def start : State :=
  ⟨.ground, false⟩

def shows (state : State) (character : Char) : Bool :=
  isPlain character &&
    (state.suspended || state.reading == .ground ||
      (isGap character && state.reading.canSuspend))

def next (state : State) (character : Char) : State :=
  if state.shows character then
    if character.toNat < 0x80 then
      ⟨state.reading, state.reading != .ground⟩
    else
      start
  else
    ⟨state.reading.advance character, false⟩

end State

/-- The visible characters of a text that is read from a given state. -/
def visibleFrom : State → List Char → List Char
  | _, [] => []
  | state, character :: rest =>
      if state.shows character then
        character :: visibleFrom (state.next character) rest
      else
        visibleFrom (state.next character) rest

def visible (text : String) : String :=
  String.ofList (visibleFrom .start text.toList)

theorem visibleFrom_append (state : State) (first second : List Char) :
    visibleFrom state (first ++ second) =
      visibleFrom state first ++ visibleFrom (first.foldl State.next state) second := by
  induction first generalizing state with
  | nil => rfl
  | cons character rest ih =>
      simp only [List.cons_append, visibleFrom, List.foldl_cons, ih]
      split <;> rfl

theorem shows_start {character : Char} (plain : isPlain character = true) :
    State.start.shows character = true := by
  simp [State.shows, State.start, plain]

theorem next_start {character : Char} (plain : isPlain character = true) :
    State.start.next character = State.start := by
  simp only [State.next, shows_start plain, if_true]
  split <;> rfl

theorem visibleFrom_start {text : List Char} (plain : text.all isPlain = true) :
    visibleFrom .start text = text := by
  induction text with
  | nil => rfl
  | cons character rest ih =>
      simp only [List.all_cons, Bool.and_eq_true] at plain
      simp [visibleFrom, shows_start plain.1, next_start plain.1, ih plain.2]

end Opcodes.Text.Control
