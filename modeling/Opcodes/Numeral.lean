/-!
# Numerals in a radix

Digits are read from left to right. The first character that is no digit of
the radix, or at which the number reaches a given limit, decides what is wrong
with the numeral.
-/

namespace Opcodes.Numeral

inductive Error where
  | empty
  | invalidDigit
  | tooLarge
deriving DecidableEq, Repr

def Error.message : Error → String
  | empty => "cannot parse integer from empty string"
  | invalidDigit => "invalid digit found in string"
  | tooLarge => "number too large to fit in target type"

/-- The value of an ASCII digit or letter, where letters of either case follow nine. -/
def value? (character : Char) : Option Nat :=
  if character.isDigit then
    some (character.toNat - '0'.toNat)
  else if character.isLower then
    some (character.toNat - 'a'.toNat + 10)
  else if character.isUpper then
    some (character.toNat - 'A'.toNat + 10)
  else
    none

/-- The value of a digit of the radix. -/
def digit? (radix : Nat) (character : Char) : Option Nat :=
  (value? character).filter fun value => value < radix

/-- Reads further digits behind those that denote `value`. -/
def readFrom (radix limit value : Nat) : List Char → Except Error Nat
  | [] => .ok value
  | character :: rest =>
      match digit? radix character with
      | none => .error .invalidDigit
      | some digit =>
          if value * radix + digit < limit then
            readFrom radix limit (value * radix + digit) rest
          else
            .error .tooLarge

/-- The number below the limit that the digits denote. -/
def read (radix limit : Nat) (digits : List Char) : Except Error Nat :=
  if digits.isEmpty then .error .empty else readFrom radix limit 0 digits

end Opcodes.Numeral
