/-!
# Numerals of bounded numbers

`readUnsigned` and `readSigned` read decimal numerals of numbers with so many
bits. A numeral is read from left to right, and the first character that is no
digit or takes the value out of range decides how it fails (`NumeralError`).
-/

namespace ParityBlocks.Text

/-- Why a text is not the numeral of a number in range. -/
inductive NumeralError
  | empty
  | invalidDigit
  | tooLarge
  | tooSmall
deriving DecidableEq

/-- The error in words. -/
def NumeralError.message : NumeralError → String
  | empty => "cannot parse integer from empty string"
  | invalidDigit => "invalid digit found in string"
  | tooLarge => "number too large to fit in target type"
  | tooSmall => "number too small to fit in target type"

/-- The value of an ASCII digit. -/
def digit? (c : Char) : Option Nat :=
  if '0' ≤ c ∧ c ≤ '9' then some (c.toNat - '0'.toNat) else none

/-- Reads digits after others of the given value, which may not exceed `limit`. -/
def readDigits (limit : Nat) (beyond : NumeralError) (value : Nat) :
    List Char → Except NumeralError Nat
  | [] => .ok value
  | c :: cs =>
    match digit? c with
    | none => .error .invalidDigit
    | some d =>
      if 10 * value + d ≤ limit then readDigits limit beyond (10 * value + d) cs
      else .error beyond

/-- Reads at least one digit. -/
def readMagnitude (limit : Nat) (beyond : NumeralError) : List Char → Except NumeralError Nat
  | [] => .error .invalidDigit
  | cs => readDigits limit beyond 0 cs

/-- Reads the numeral of a natural number of so many bits, maybe with a plus sign. -/
def readUnsigned (bits : Nat) : List Char → Except NumeralError Nat
  | [] => .error .empty
  | '+' :: cs => readMagnitude ((1 <<< bits) - 1) .tooLarge cs
  | cs => readMagnitude ((1 <<< bits) - 1) .tooLarge cs

/-- Reads the numeral of a number of so many bits, one of them for the sign. -/
def readSigned (bits : Nat) : List Char → Except NumeralError Int
  | [] => .error .empty
  | '-' :: cs => (readMagnitude (1 <<< (bits - 1)) .tooSmall cs).map fun n => -(n : Int)
  | '+' :: cs => (readMagnitude ((1 <<< (bits - 1)) - 1) .tooLarge cs).map Int.ofNat
  | cs => (readMagnitude ((1 <<< (bits - 1)) - 1) .tooLarge cs).map Int.ofNat

end ParityBlocks.Text
