import Opcodes.Failure
import Opcodes.Numeral
import Opcodes.Text.Blank

/-!
# Bytes written as text

A byte is written in decimal, in hexadecimal behind `0x`, `$` or `#`, or in
binary behind `0b`. Blank characters around it are ignored; a sign never is.
-/

namespace Opcodes.ByteLiteral

inductive Error where
  | signed
  | notANumber (cause : Numeral.Error)
  | outOfRange
deriving DecidableEq, Repr

namespace Error

/-- What is wrong with a text, which is quoted as it was given. -/
def message (text : String) : Error → String
  | signed => "'" ++ text ++ "' must not carry a sign"
  | notANumber _ => "'" ++ text ++ "' is not a number"
  | outOfRange => text ++ " is out of range, opcodes are 0..=255"

/-- What is wrong with the digits, where that is known apart. -/
def cause? : Error → Option String
  | notANumber cause => some cause.message
  | _ => none

def failure (text : String) (error : Error) : Failure :=
  ⟨error.message text, error.cause?⟩

end Error

/-- The radix that the first characters announce, and the characters after them. -/
def splitRadix : List Char → Nat × List Char
  | '0' :: 'x' :: digits => (16, digits)
  | '0' :: 'X' :: digits => (16, digits)
  | '$' :: digits => (16, digits)
  | '#' :: digits => (16, digits)
  | '0' :: 'b' :: digits => (2, digits)
  | '0' :: 'B' :: digits => (2, digits)
  | digits => (10, digits)

def isSigned : List Char → Bool
  | '+' :: _ => true
  | '-' :: _ => true
  | _ => false

/-- Numerals are read up to the range of a 32-bit word. -/
def limit : Nat :=
  4294967296

/-- The byte that the digits of a radix denote. -/
def ofDigits (radix : Nat) (digits : List Char) : Except Error UInt8 :=
  if isSigned digits then
    .error .signed
  else
    match Numeral.read radix limit digits with
    | .error cause => .error (.notANumber cause)
    | .ok value => if value < 256 then .ok (UInt8.ofNat value) else .error .outOfRange

/-- The byte that a text denotes. -/
def read (text : String) : Except Error UInt8 :=
  let split := splitRadix (Text.Blank.trim text.toList)
  ofDigits split.1 split.2

end Opcodes.ByteLiteral
