import ParityBlocks.Constraint
import ParityBlocks.Text.Blank
import ParityBlocks.Text.Numeral

/-!
# Lists of literals

A literal is a number other than 0 whose magnitude is the number of a variable
from 1 on; it is negated if the number is negative. A list of literals ends with
a 0. `readLiterals` reads one from its words, and its error is about the first
word that is wrong.
-/

namespace ParityBlocks.Cnf

/-- A variable or its negation. -/
structure Literal where
  var : Var
  negated : Bool
deriving DecidableEq

/-- The literal of a number. Its variable counts from 0 and is stored in 32 bits. -/
def Literal.ofInt (number : Int) : Literal :=
  ⟨(number.natAbs - 1) % Var.modulus, decide (number < 0)⟩

/-- Why words are not a list of literals. -/
inductive LiteralError
  /-- A word follows the final 0. -/
  | afterEnd (word : String)
  | notNumeral (word : String) (why : Text.NumeralError)
  /-- The variable is not among the declared ones. -/
  | outOfRange (var declared : Nat)
  /-- There is no final 0. -/
  | missingEnd
deriving DecidableEq

/-- The error in words, the general ones before those that explain them. -/
def LiteralError.chain : LiteralError → List String
  | afterEnd word => [s!"Literal `{word}` after terminating 0"]
  | notNumeral word why => [s!"Invalid literal `{word}`", why.message]
  | outOfRange var declared =>
    [s!"Variable {var} is out of range, header declares {declared} variables"]
  | missingEnd => ["Missing terminating 0"]

/-- Reads words as literals of declared variables up to the final 0. -/
def readLiterals (declared : Nat) : List (List Char) → Except LiteralError (List Literal)
  | [] => .error .missingEnd
  | word :: rest =>
    match Text.readSigned 64 word with
    | .error why => .error (.notNumeral (.ofList word) why)
    | .ok number =>
      if number = 0 then
        match rest with
        | [] => .ok []
        | next :: _ => .error (.afterEnd (.ofList next))
      else if declared < number.natAbs then .error (.outOfRange number.natAbs declared)
      else (readLiterals declared rest).map (Literal.ofInt number :: ·)

/-- Reads a text as a list of literals of declared variables. -/
def literalsOf (declared : Nat) (text : List Char) : Except LiteralError (List Literal) :=
  readLiterals declared (Text.words text)

end ParityBlocks.Cnf
